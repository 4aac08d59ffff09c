import ResourceApi.Proofs.Sql.Listing
import ResourceApi.Proofs.Store.Selecting

/-!
# Operations on lists of values

**Theorem (`Session.listed_as_in_turn`).** Whether a field is compared with a list at once or with
its values in turn, the same rows are selected, found, counted, changed and deleted, if no value is
null. With null the two forms differ (`Session.listed_null`).

A database looks at values, names and depth of a statement before it carries it out. Both forms
have the same values and name the same column, so the one is accepted where the other is, unless it
is too deep (`verified_of_lists`, `verified_select_of_lists`). The depth of a list is small. That of
its values in turn grows with them, and it counts twice in statements that change rows.
-/

namespace ResourceApi

variable {r : Registry} {db db' : Database} {schema : Schema} {p q : Predicate} {column : String}
  {values : List SqlValue} {bound other : Nat}

namespace Session

/-! ## Accepted statements -/

theorem verified_of_lists {statement : KeyQuery → Statement} (hs : KeyQuery.Serves statement)
    (query : KeyQuery) {c : ColumnRef} {condition : Option RowCondition}
    (hc : RowCondition.Lists c values bound query.condition)
    (hd : RowCondition.Lists c values other condition)
    (hdepth : (statement { query with condition }).depth ≤ Depth.maximum) {sql sql' : String}
    (h : verified db (statement query) sql = .ok ()) :
    verified db (statement { query with condition }) sql' = .ok () := by
  have hparams := hd.params.trans hc.params.symm
  have hsub : ∀ d ∈ ((condition.map RowCondition.names).getD Names.none).columns,
      d ∈ ((query.condition.map RowCondition.names).getD Names.none).columns :=
    fun d hm => (hc.columns d).2 ((hd.columns d).1 hm)
  have hnames : (∀ d ∈ query.names.columns, db.resolves query.names d = true) →
      ∀ d ∈ ({ query with condition } : KeyQuery).names.columns,
        db.resolves ({ query with condition } : KeyQuery).names d = true := by
    have hresolves := db.resolves_of_subset
      (a := .ofTable query.aliasId query.table ++ .ofColumns [⟨query.aliasId, query.column⟩])
      (b := .none) hc.tables hd.tables hsub
    rwa [RowCondition.Alike.names_append_none, RowCondition.Alike.names_append_none] at hresolves
  rw [verified_eq_ok_iff, Statement.checkSize_eq_ok_iff] at h ⊢
  obtain ⟨⟨hvalues, hlists, -⟩, hcheck, horder, htargets⟩ := h
  have hbound : (statement { query with condition }).params.length ≤ Statement.maxValues := by
    cases hs <;>
      (rw [Statement.params] at hvalues ⊢
       rwa [hparams])
  cases hs with
  | count =>
    exact ⟨⟨hbound, hlists, hdepth⟩, Database.checkNames_eq_ok_iff.2
      (hnames (Database.checkNames_eq_ok_iff.1 hcheck)), horder, htargets⟩
  | delete =>
    exact ⟨⟨hbound, hlists, hdepth⟩, Database.checkNames_eq_ok_iff.2
      (hnames (Database.checkNames_eq_ok_iff.1 hcheck)), horder, htargets⟩
  | update assigned =>
    obtain ⟨⟨⟩, hassigned, hcheck⟩ := bind_eq_ok.1 hcheck
    exact ⟨⟨hbound, hlists, hdepth⟩, bind_eq_ok.2 ⟨(), hassigned, Database.checkNames_eq_ok_iff.2
      (hnames (Database.checkNames_eq_ok_iff.1 hcheck))⟩, horder, htargets⟩

theorem verified_select_of_lists {query : SelectQuery} (hquery : query.Plain) {c : ColumnRef}
    {condition : Option RowCondition} (hc : RowCondition.Lists c values other query.condition)
    (hd : RowCondition.Lists c values bound condition) (hb : bound ≤ Depth.maximum)
    {sql sql' : String} (h : verified db (.select query) sql = .ok ()) :
    verified db (.select { query with condition }) sql' = .ok () := by
  have hplain : SelectQuery.Plain { query with condition } := hquery
  rw [verified_eq_ok_iff, Statement.checkSize_eq_ok_iff, checkLists_select_iff hquery] at h
  rw [verified_eq_ok_iff, Statement.checkSize_eq_ok_iff, checkLists_select_iff hplain]
  obtain ⟨⟨hvalues, hlists, hdepth⟩, hcheck, horder, htargets⟩ := h
  have hnames := db.resolves_of_subset hc.tables hd.tables
    (fun d hm => (hc.columns d).2 ((hd.columns d).1 hm)) (Database.checkNames_eq_ok_iff.1 hcheck)
  refine ⟨⟨?_, hlists, Statement.depth_select_le hdepth fun d hm => ?_⟩,
    Database.checkNames_eq_ok_iff.2 hnames, horder, htargets⟩
  · rw [Statement.params] at hvalues ⊢
    rwa [hd.params, ← hc.params]
  · exact Nat.le_trans (hd.depth d hm) hb

/-! ## Operations -/

/-- The query for the keys of the rows of a filter whose condition is known. -/
theorem start_keys {condition : Nat → Option RowCondition}
    (h : ∀ table, Rendering.filter r schema table p = pure (condition table)) :
    Rendering.start (Rendering.keys r schema p) =
      .ok ⟨schema.tableName, 0, schema.idColumn, condition 0⟩ := by
  unfold Rendering.keys
  simp only [h]
  rfl

/-- A statement on the rows of a filter is accepted with every filter that can stand for it, if that
is not too deep. -/
theorem onRows_of_standsFor (h : q.StandsFor r schema bound p) {statement : KeyQuery → Statement}
    (hs : KeyQuery.Serves statement) (hdepth : ∀ query : KeyQuery,
      (∀ d ∈ query.condition, d.depth.total ≤ bound) → (statement query).depth ≤ Depth.maximum)
    {P : KeyQuery → Prop} (hP : ∀ query condition,
      db.keys { query with condition } = db.keys query → P query → P { query with condition })
    (hp : OnRows r db schema p statement P) : OnRows r db schema q statement P := by
  obtain ⟨column, values, other, ⟨condition, hq⟩, replaced, hreplaced⟩ := h.lists
  obtain ⟨query, hquery, hverified, hholds⟩ := hp
  have hkeys := start_keys fun table => (hq table).1
  have hfiltered : db.filtered schema.tableName 0 (condition 0) =
      db.filtered query.table query.aliasId query.condition :=
    (Rendering.selected_of_keys db h.ne_any.1 hkeys).2.trans
      ((h.selected db).trans (Rendering.selected_of_keys db h.ne_any.2 hquery).2.symm)
  rw [start_keys fun table => (hreplaced table).1] at hquery
  obtain rfl := Except.ok.inj hquery
  have hsame : db.keys ⟨schema.tableName, 0, schema.idColumn, condition 0⟩ =
      db.keys ⟨schema.tableName, 0, schema.idColumn, replaced 0⟩ := by
    rw [Database.keys, Database.keys]
    exact congrArg _ hfiltered
  refine ⟨_, hkeys, ?_, ?_⟩
  · exact verified_of_lists hs ⟨schema.tableName, 0, schema.idColumn, replaced 0⟩ (hreplaced 0).2
      (hq 0).2 (hdepth _ (hq 0).2.depth) hverified
  · exact hP ⟨schema.tableName, 0, schema.idColumn, replaced 0⟩ (condition 0) hsame hholds

section

variable (h : q.StandsFor r schema bound p)
include h

theorem counted_of_standsFor (hb : 2 ≤ bound ∧ bound ≤ Depth.maximum) {n : Nat}
    (hp : counted schema p r db = .ok n) : counted schema q r db = .ok n := by
  rw [counted_eq_ok_iff] at hp ⊢
  refine onRows_of_standsFor h .count (fun query hquery => ?_) (fun query condition hkeys hn => ?_)
    hp
  · exact Nat.le_trans (Statement.depth_count_le hb.1 hquery) hb.2
  · rw [hkeys]
    exact hn

variable (hb : 2 ≤ bound ∧ 2 * bound < Depth.maximum)
include hb

theorem destroyed_of_standsFor {n : Nat} (hp : destroyed schema p r db = .ok (db', n)) :
    destroyed schema q r db = .ok (db', n) := by
  rw [destroyed_eq_ok_iff] at hp ⊢
  refine onRows_of_standsFor h .delete (fun query hquery => ?_) (fun query condition hkeys hn => ?_)
    hp
  · exact Nat.le_trans (Statement.depth_change_le hb.1 hquery) hb.2
  · rw [← hn, Database.hasKeyOf_of_keys hkeys]

theorem updated_of_standsFor {row : Object} {n : Nat}
    (hp : updated schema row p r db = .ok (db', n)) :
    updated schema row q r db = .ok (db', n) := by
  cases hrow : row.isEmpty with
  | true =>
    have hbound : bound ≤ Depth.maximum := by omega
    unfold updated at hp ⊢
    rw [if_pos hrow, map_eq_ok] at hp ⊢
    obtain ⟨k, hk, he⟩ := hp
    exact ⟨k, counted_of_standsFor h ⟨hb.1, hbound⟩ hk, he⟩
  | false =>
    rw [updated_eq_ok_iff_onRows hrow] at hp ⊢
    obtain ⟨values, hvalues, hp⟩ := hp
    refine ⟨values, hvalues, onRows_of_standsFor h (.update values) (fun query hquery => ?_)
      (fun query condition hkeys hn => ?_) hp⟩
    · exact Nat.le_trans (Statement.depth_change_le hb.1 hquery) hb.2
    · rw [← hn, Database.hasKeyOf_of_keys hkeys]

end

/-! ### Reading -/

/-- The query of a plan, told from the one with another filter, where the conditions of both filters
are known. -/
theorem ofPlan_of_filter {condition replaced : Nat → Option RowCondition}
    (hq : ∀ table, Rendering.filter r schema table q = pure (condition table))
    (hp : ∀ table, Rendering.filter r schema table p = pure (replaced table)) (plan : Plan) :
    Statement.ofPlan r schema { plan with filter := q } =
      (Statement.ofPlan r schema { plan with filter := p }).map fun out =>
        ({ out.1 with condition := condition out.1.aliasId }, out.2) := by
  unfold Statement.ofPlan
  rw [← Rendering.start_map]
  simp only [hq, hp, map_bind, map_pure, pure_bind]

/-- What is found with a filter is found with every filter that can stand for it, if that is not too
deep. -/
theorem found_of_standsFor (h : q.StandsFor r schema bound p) (hb : bound ≤ Depth.maximum)
    {plan : Plan} (hplain : Plain r schema p plan) {objects : List Object}
    (hfound : found schema { plan with filter := p } r db = .ok objects) :
    found schema { plan with filter := q } r db = .ok objects := by
  obtain ⟨column, values, other, ⟨condition, hq⟩, replaced, hp⟩ := h.lists
  unfold found at hfound ⊢
  rw [ofPlan_of_filter (fun table => (hq table).1) fun table => (hp table).1]
  cases hout : Statement.ofPlan r schema { plan with filter := p } with
  | error e =>
    rw [hout] at hfound
    exact hfound
  | ok out =>
    rw [hout] at hfound
    have hquery := hplain out hout
    obtain ⟨hrenders, -⟩ := Statement.renders_ofPlan hout
    obtain ⟨n, m, hn, hc⟩ := hrenders.condition
    have hcondition : out.1.condition = replaced out.1.aliasId := by
      rw [show Rendering.filter r schema out.1.aliasId _ = _ from (hp _).1] at hc
      exact (Rendering.run_pure_eq_ok.1 hc).1.symm
    have hselected : db.filtered out.1.table out.1.aliasId (condition out.1.aliasId) =
        db.filtered out.1.table out.1.aliasId out.1.condition := by
      have hrun : (Rendering.filter r schema out.1.aliasId q).run n =
          .ok (condition out.1.aliasId, n) := by
        rw [(hq _).1]
        rfl
      rw [hrenders.table, Rendering.filtered_eq_selected h.ne_any.1 hrun hn, h.selected,
        Rendering.filtered_eq_selected h.ne_any.2 hc hn]
    have hanswer : db.answer { out.1 with condition := condition out.1.aliasId } =
        db.answer out.1 := by
      have hsorted : db.sorted { out.1 with condition := condition out.1.aliasId } =
          db.sorted out.1 := by
        unfold Database.sorted
        rw [hselected]
      unfold Database.answer Database.selectFault? Database.select Database.selected
      rw [hsorted]
    obtain ⟨_, hplan, hrest⟩ := bind_eq_ok.1 hfound
    obtain rfl := Except.ok.inj (mapError_eq_ok.1 hplan)
    obtain ⟨_, hprepared, hrest⟩ := bind_eq_ok.1 hrest
    obtain ⟨hcolumns, hverified, rfl⟩ := (prepared_eq_ok_iff hquery).1 hprepared
    have hlists := (hp out.1.aliasId).2
    rw [← hcondition] at hlists
    have hplain : SelectQuery.Plain { out.1 with condition := condition out.1.aliasId } := hquery
    refine bind_eq_ok.2 ⟨_, rfl, bind_eq_ok.2 ⟨_, (prepared_eq_ok_iff hplain).2
      ⟨hcolumns, verified_select_of_lists hquery hlists (hq _).2 hb hverified, rfl⟩, ?_⟩⟩
    rw [hanswer]
    exact hrest

/-! ## Sessions -/

/-- Whatever the operations that read do given the second filter, they do given the first one. -/
structure ReadsAs (s : Session) (schema : Schema) (q p : Predicate) : Prop where
  find : ∀ plan, Plain s.registry schema p plan → ∀ (objects : List Object) db,
    s.Does (perform (.find schema { plan with filter := p })) objects db →
    s.Does (perform (.find schema { plan with filter := q })) objects db
  count : ∀ (n : Nat) db, s.Does (perform (.count schema p)) n db →
    s.Does (perform (.count schema q)) n db

/-- Whatever the operations that write do given the second filter, they do given the first one. -/
structure WritesAs (s : Session) (schema : Schema) (q p : Predicate) : Prop where
  update : ∀ row (n : Nat) db, s.Does (perform (.update schema row p)) n db →
    s.Does (perform (.update schema row q)) n db
  destroy : ∀ (n : Nat) db, s.Does (perform (.destroy schema p)) n db →
    s.Does (perform (.destroy schema q)) n db

section

variable {s : Session} (h : q.StandsFor s.registry schema bound p)
include h

theorem readsAs_of_standsFor (hb : 2 ≤ bound ∧ bound ≤ Depth.maximum) : s.ReadsAs schema q p where
  find plan hplain objects db hdoes := by
    obtain ⟨hfound, hdb⟩ := (computes_find schema _).does_iff.1 hdoes
    exact (computes_find schema _).does_iff.2 ⟨found_of_standsFor h hb.2 hplain hfound, hdb⟩
  count _ _ hdoes := by
    obtain ⟨hcounted, hdb⟩ := (computes_count schema _).does_iff.1 hdoes
    exact (computes_count schema _).does_iff.2 ⟨counted_of_standsFor h hb hcounted, hdb⟩

theorem writesAs_of_standsFor (hb : 2 ≤ bound ∧ 2 * bound < Depth.maximum) :
    s.WritesAs schema q p where
  update row _ _ hdoes := (changes_update schema row q).does_iff.2
    (updated_of_standsFor h hb ((changes_update schema row p).does_iff.1 hdoes))
  destroy _ _ hdoes := (changes_destroy schema q).does_iff.2
    (destroyed_of_standsFor h hb ((changes_destroy schema p).does_iff.1 hdoes))

end

/-- **A field is compared with a list at once as with its values in turn**, if none of them is null.
The same rows are selected, and what the operations do given the values in turn they do given the
list. The converse is about lists that do not make the comparisons in turn too deep. -/
theorem listed_as_in_turn {s : Session} {field : String} {values : List Json}
    (hf : schema.hasField field) (hn : .null ∉ values)
    (h : (q, p) ∈ Predicate.listed field values) :
    (∀ r (db : Database), q.selected r db schema = p.selected r db schema) ∧
      (s.ReadsAs schema q p ∧ s.WritesAs schema q p) ∧
      (values.length ≤ 998 → s.ReadsAs schema p q) ∧
      (values.length ≤ 497 → s.WritesAs schema p q) := by
  obtain ⟨hq, hp⟩ := Predicate.standsFor_of_listed (r := s.registry) hf hn h
  refine ⟨fun r db => Predicate.selected_of_listed hn h db,
    ⟨readsAs_of_standsFor hq (by decide), writesAs_of_standsFor hq (by decide)⟩,
    fun hlength => readsAs_of_standsFor hp ⟨by omega, ?_⟩,
    fun hlength => writesAs_of_standsFor hp ⟨by omega, ?_⟩⟩
  · show values.length + 2 ≤ 1000
    omega
  · show 2 * (values.length + 2) < 1000
    omega

/-- Of two nodes, one has one of two names. It is counted, and the other one deleted. -/
theorem listed_names : treeNode.hasField "name" = true ∧ .null ∉ [Json.str "y", .str "z"] ∧
    twoNodes.Does (perform (.count treeNode (.among "name" [.str "y", .str "z"])))
      (1 : Nat) twoNodes.database ∧
    twoNodes.Does (perform (.count treeNode (.equalsAny "name" [.str "y", .str "z"])))
      (1 : Nat) twoNodes.database ∧
    ∃ db, twoNodes.Does (perform (.destroy treeNode (.notAmong "name" [.str "y", .str "z"])))
        (1 : Nat) db ∧
      twoNodes.Does (perform (.destroy treeNode (.differsFromAll "name" [.str "y", .str "z"])))
        (1 : Nat) db ∧
      db.rows treeNode.tableName =
        [[("id", .integer 2), ("name", .text "y"), ("up_id", .null)]] := by
  have hf : treeNode.hasField "name" = true := by decide +kernel
  have hn : .null ∉ [Json.str "y", .str "z"] := by decide
  have hcount : twoNodes.Does (perform (.count treeNode (.among "name" [.str "y", .str "z"])))
      (1 : Nat) twoNodes.database := ⟨by decide +kernel, by decide +kernel⟩
  obtain ⟨-, -, hreads, -⟩ := listed_as_in_turn (s := twoNodes) hf hn List.mem_cons_self
  obtain ⟨-, -, -, hwrites⟩ := listed_as_in_turn (s := twoNodes) hf hn
    (List.mem_cons_of_mem _ List.mem_cons_self)
  have hdestroy : twoNodes.Does
      (perform (.destroy treeNode (.notAmong "name" [.str "y", .str "z"]))) (1 : Nat) _ :=
    ⟨by decide +kernel, rfl⟩
  exact ⟨hf, hn, hcount, (hreads (by decide)).count 1 _ hcount, _, hdestroy,
    (hwrites (by decide)).destroy 1 _ hdestroy, by decide +kernel⟩

/-- A session with two nodes, of which the first has no name. -/
def nameless : Session := holding tree treeNode [[("name", .null)], [("name", .str "y")]]

/-- **With null the two forms differ.** The node without a name is counted as one whose name equals
null, but not as one with a name in the list of null alone. The other node is counted as one whose
name differs from null, but not as one with no name in the list. -/
theorem listed_null : Registry.assemble [treeNode] = .ok tree ∧ Reachable tree nameless ∧
    treeNode.hasField "name" = true ∧
    nameless.Does (perform (.count treeNode (.among "name" [.null]))) (0 : Nat) nameless.database ∧
    nameless.Does (perform (.count treeNode (.equalsAny "name" [.null])))
      (1 : Nat) nameless.database ∧
    nameless.Does (perform (.count treeNode (.notAmong "name" [.null])))
      (0 : Nat) nameless.database ∧
    nameless.Does (perform (.count treeNode (.differsFromAll "name" [.null])))
      (1 : Nat) nameless.database := by
  refine ⟨assemble_node, ?_, by decide +kernel, ⟨?_, ?_⟩, ⟨?_, ?_⟩, ⟨?_, ?_⟩, ⟨?_, ?_⟩⟩
  · exact .run _ _ (.start (Registry.start_unused (by decide +kernel)))
  all_goals decide +kernel

end Session

end ResourceApi
