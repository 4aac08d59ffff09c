import ResourceApi.Proofs.Engine.Finding
import ResourceApi.Proofs.Engine.Served
import ResourceApi.Proofs.Sql.Between
import ResourceApi.Proofs.Sql.Nesting
import ResourceApi.Proofs.Store.Success

/-!
# The rows that operations concern

**Theorem (`Session.concerns_wrapped`).** Whether a filter is given as it is, or alone in a
conjunction or a disjunction, the operations of a session do the same, and what they concern are the
rows that the filter selects: they are found, counted, changed and deleted. This holds of every
filter but the disjunction of nothing, which as it is concerns every row
(`Session.any_nil_concerns_all`).

Rows are changed and deleted by their primary keys. So it matters there that no two rows of the
table have the same one.
-/

namespace ResourceApi

variable {α : Type} {schemas : List Schema} {r : Registry} {db db' : Database} {schema : Schema}
  {p q : Predicate} {f : Option RowCondition → Option RowCondition}

/-! ## Accepted statements -/

/-- The statement can be rendered, and the database accepts it. -/
def Database.Admits (db : Database) (rendered : Except RenderError Statement) : Prop :=
  ∃ statement, rendered = .ok statement ∧ Session.verified db statement statement.sql = .ok ()

/-- A statement on the rows whose keys a query answers. -/
inductive KeyQuery.Serves : (KeyQuery → Statement) → Prop
  | count : Serves .count
  | update (values : Tuple) : Serves (.update · values)
  | delete : Serves .delete

/-- The keys of related rows read as they are written, and no object has too many members. -/
def SelectQuery.Plain (query : SelectQuery) : Prop :=
  ∀ related ∈ query.related, related.isPlain = true ∧ related.arguments ≤ Statement.maxArguments

namespace Session

theorem verified_eq_ok_iff {statement : Statement} {sql : String} :
    verified db statement sql = .ok () ↔ statement.checkSize sql = .ok () ∧
      db.check statement sql = .ok () ∧ statement.checkOrder = .ok () ∧
      db.checkTargets statement = .ok () := by
  refine ⟨fun h => ?_, fun ⟨hs, hn, ho, ht⟩ => verified_eq_ok hs hn ho ht⟩
  obtain ⟨⟨⟩, hs, h⟩ := bind_eq_ok.1 h
  obtain ⟨⟨⟩, hn, h⟩ := bind_eq_ok.1 h
  obtain ⟨⟨⟩, ho, h⟩ := bind_eq_ok.1 h
  exact ⟨mapError_eq_ok.1 hs, mapError_eq_ok.1 hn, mapError_eq_ok.1 ho, mapError_eq_ok.1 h⟩

/-- Statements with like conditions are accepted alike: the database looks at values, names and
depths, and at a text only to say why it refuses it. -/
theorem verified_of_alike {statement : KeyQuery → Statement} (hs : KeyQuery.Serves statement)
    {query : KeyQuery} {c : Option RowCondition} (h : RowCondition.Alike query.condition c)
    {sql sql' : String} : verified db (statement { query with condition := c }) sql' = .ok () ↔
      verified db (statement query) sql = .ok () := by
  have hnames := KeyQuery.names_of_alike h
  have hdepth := KeyQuery.depth_of_alike h
  cases hs <;>
    (simp only [verified_eq_ok_iff, Statement.checkSize_eq_ok_iff, Statement.params,
      Statement.depth, Database.check, bind_eq_ok, Database.checkNames_eq_ok_iff, h.params, hnames,
      hdepth]
     rfl)

/-! ## Statements on the rows of a filter -/

/-- A statement on the rows of a filter is accepted, and the query for their keys has a property. -/
def OnRows (r : Registry) (db : Database) (schema : Schema) (p : Predicate)
    (statement : KeyQuery → Statement) (P : KeyQuery → Prop) : Prop :=
  ∃ query, Rendering.start (Rendering.keys r schema p) = .ok query ∧
    verified db (statement query) (statement query).sql = .ok () ∧ P query

section

variable {statement : KeyQuery → Statement} {P Q : KeyQuery → Prop}

theorem onRows_of_wraps (h : q.Wraps p f) (hs : KeyQuery.Serves statement)
    (hP : ∀ query c, RowCondition.Alike query.condition c →
      (P { query with condition := c } ↔ P query)) :
    OnRows r db schema q statement P ↔ OnRows r db schema p statement P := by
  unfold OnRows
  rw [Rendering.keys_of_wraps h]
  simp only [map_eq_ok]
  constructor
  · rintro ⟨_, ⟨query, hquery, rfl⟩, hverified, hholds⟩
    exact ⟨query, hquery, (verified_of_alike hs (h.alike _)).1 hverified,
      (hP _ _ (h.alike _)).1 hholds⟩
  · rintro ⟨query, hquery, hverified, hholds⟩
    exact ⟨_, ⟨query, hquery, rfl⟩, (verified_of_alike hs (h.alike _)).2 hverified,
      (hP _ _ (h.alike _)).2 hholds⟩

/-- The property of the query may not depend on the query. -/
theorem onRows_iff {R : Prop}
    (hP : ∀ query, Rendering.start (Rendering.keys r schema p) = .ok query → (P query ↔ R)) :
    OnRows r db schema p statement P ↔
      db.Admits ((Rendering.start (Rendering.keys r schema p)).map statement) ∧ R := by
  constructor
  · rintro ⟨query, hquery, hverified, hholds⟩
    exact ⟨⟨_, map_eq_ok.2 ⟨query, hquery, rfl⟩, hverified⟩, (hP query hquery).1 hholds⟩
  · rintro ⟨⟨_, hrendered, hverified⟩, hR⟩
    obtain ⟨query, hquery, rfl⟩ := map_eq_ok.1 hrendered
    exact ⟨query, hquery, hverified, (hP query hquery).2 hR⟩

end

/-! ## Operations -/

theorem counted_eq_ok_iff {n : Nat} : counted schema q r db = .ok n ↔
    OnRows r db schema q .count fun query => (db.keys query).length = n := by
  constructor
  · intro h
    obtain ⟨query, hquery, h⟩ := bind_eq_ok.1 h
    obtain ⟨⟨⟩, hverified, h⟩ := bind_eq_ok.1 h
    exact ⟨query, mapError_eq_ok.1 hquery, hverified, pure_eq_ok.1 h⟩
  · rintro ⟨query, hquery, hverified, rfl⟩
    exact bind_eq_ok.2 ⟨query, mapError_eq_ok.2 hquery, bind_eq_ok.2 ⟨(), hverified, rfl⟩⟩

theorem destroyed_eq_ok_iff {n : Nat} : destroyed schema q r db = .ok (db', n) ↔
    OnRows r db schema q .delete fun query =>
      db.deleteRows query.table (db.hasKeyOf query) = (db', n) := by
  constructor
  · intro h
    obtain ⟨statement, hstatement, h⟩ := bind_eq_ok.1 h
    obtain ⟨query, hquery, hstatement⟩ := bind_eq_ok.1 (mapError_eq_ok.1 hstatement)
    obtain rfl := pure_eq_ok.1 hstatement
    obtain ⟨hverified, hexecute⟩ := executed_eq_ok_iff.1 h
    exact ⟨query, hquery, hverified, Except.ok.inj hexecute⟩
  · rintro ⟨query, hquery, hverified, hdelete⟩
    refine bind_eq_ok.2 ⟨.delete query, mapError_eq_ok.2 (bind_eq_ok.2 ⟨query, hquery, rfl⟩), ?_⟩
    exact executed_eq_ok_iff.2 ⟨hverified, congrArg Except.ok hdelete⟩

theorem updated_eq_ok_iff_onRows {row : Object} {n : Nat} (hrow : row.isEmpty = false) :
    updated schema row q r db = .ok (db', n) ↔
      ∃ values, Statement.assignments r schema row = .ok values ∧
        OnRows r db schema q (.update · values) fun query =>
          db.updateRows query.table (db.hasKeyOf query) values = .ok (db', n) := by
  rw [updated_eq_ok_iff hrow]
  constructor
  · rintro ⟨statement, hstatement, h⟩
    obtain ⟨values, hvalues, hstatement⟩ := bind_eq_ok.1 hstatement
    obtain ⟨query, hquery, hstatement⟩ := bind_eq_ok.1 hstatement
    obtain rfl := pure_eq_ok.1 hstatement
    obtain ⟨hverified, hexecute⟩ := executed_eq_ok_iff.1 h
    exact ⟨values, hvalues, query, hquery, hverified, hexecute⟩
  · rintro ⟨values, hvalues, query, hquery, hverified, hexecute⟩
    exact ⟨.update query values, bind_eq_ok.2 ⟨values, hvalues, bind_eq_ok.2 ⟨query, hquery, rfl⟩⟩,
      executed_eq_ok_iff.2 ⟨hverified, hexecute⟩⟩

section

variable (h : q.Wraps p f)
include h

theorem counted_of_wraps {n : Nat} :
    counted schema q r db = .ok n ↔ counted schema p r db = .ok n := by
  rw [counted_eq_ok_iff, counted_eq_ok_iff]
  exact onRows_of_wraps h .count fun query c hc => by rw [db.keys_of_alike hc]

theorem destroyed_of_wraps {n : Nat} :
    destroyed schema q r db = .ok (db', n) ↔ destroyed schema p r db = .ok (db', n) := by
  rw [destroyed_eq_ok_iff, destroyed_eq_ok_iff]
  exact onRows_of_wraps h .delete fun query c hc => by rw [db.hasKeyOf_of_alike hc]

theorem updated_of_wraps {row : Object} {n : Nat} :
    updated schema row q r db = .ok (db', n) ↔ updated schema row p r db = .ok (db', n) := by
  cases hrow : row.isEmpty with
  | true =>
    unfold updated
    rw [if_pos hrow, if_pos hrow, map_eq_ok, map_eq_ok]
    simp only [counted_of_wraps h]
  | false =>
    rw [updated_eq_ok_iff_onRows hrow, updated_eq_ok_iff_onRows hrow]
    refine exists_congr fun values => and_congr_right fun _ => ?_
    exact onRows_of_wraps h (.update values) fun query c hc => by rw [db.hasKeyOf_of_alike hc]

end

/-! ### Reading -/

section

variable {query read : SelectQuery} {c : Option RowCondition} {sql sql' : String}

theorem prepared_eq_ok_iff (hquery : query.Plain) : prepared query db = .ok read ↔
    query.columns ≠ [] ∧ verified db (.select query) query.sql = .ok () ∧ query = read := by
  have hplain : query.related.all (·.isPlain) = true :=
    List.all_eq_true.2 fun related hm => (hquery related hm).1
  unfold prepared
  by_cases hcolumns : query.columns = []
  · obtain ⟨v, hread⟩ : ∃ v, query.read db.columnsOf = .error v := by
      simp [SelectQuery.read, hcolumns]
    rw [hread]
    constructor
    · intro h
      cases h
    · intro h
      exact absurd hcolumns h.1
  · rw [SelectQuery.read_of_isPlain hcolumns hplain]
    constructor
    · intro h
      obtain ⟨_, hread, h⟩ := bind_eq_ok.1 h
      obtain rfl := Except.ok.inj hread
      obtain ⟨⟨⟩, hverified, h⟩ := bind_eq_ok.1 h
      exact ⟨hcolumns, hverified, pure_eq_ok.1 h⟩
    · rintro ⟨-, hverified, rfl⟩
      exact bind_eq_ok.2 ⟨query, rfl, bind_eq_ok.2 ⟨(), hverified, rfl⟩⟩

theorem checkLists_select_iff (hquery : query.Plain) :
    (Statement.select query).checkLists sql = .ok () ↔
      query.columns.length + query.related.length ≤ Statement.maxTerms := by
  have harguments : Statement.checkArguments query sql = .ok () :=
    if_pos (by simpa using fun related hm => (hquery related hm).2)
  unfold Statement.checkLists
  dsimp only
  rw [harguments]
  by_cases h : Statement.maxTerms < query.columns.length + query.related.length
  · rw [if_pos h]
    exact ⟨fun h => (nomatch h), fun h => by omega⟩
  · rw [if_neg h]
    exact ⟨fun _ => by omega, fun _ => rfl⟩

theorem verified_select_of_alike (hquery : query.Plain)
    (h : RowCondition.Alike query.condition c) (hcolumns : query.columns ≠ []) :
    verified db (.select { query with condition := c }) sql' = .ok () ↔
      verified db (.select query) sql = .ok () := by
  have hnames := SelectQuery.names_of_alike h
  have hdepth := SelectQuery.depth_of_alike h hcolumns
  have hplain : SelectQuery.Plain { query with condition := c } := hquery
  simp only [verified_eq_ok_iff, Statement.checkSize_eq_ok_iff, Statement.params,
    checkLists_select_iff hquery, checkLists_select_iff hplain, Statement.depth, Database.check,
    Database.checkNames_eq_ok_iff, h.params, hnames, hdepth]
  rfl

theorem answer_of_alike (h : RowCondition.Alike query.condition c) (db : Database) :
    db.answer { query with condition := c } = db.answer query := by
  unfold Database.answer Database.selectFault? Database.select Database.selected
  rw [db.sorted_of_alike h]

end

/-- The query of a plan with the filter reads as it is written. -/
def Plain (r : Registry) (schema : Schema) (p : Predicate) (plan : Plan) : Prop :=
  ∀ out, Statement.ofPlan r schema { plan with filter := p } = .ok out → out.1.Plain

theorem found_of_wraps (h : q.Wraps p f) {plan : Plan} (hplan : Plain r schema p plan)
    {objects : List Object} :
    found schema { plan with filter := q } r db = .ok objects ↔
      found schema { plan with filter := p } r db = .ok objects := by
  unfold found
  rw [Statement.ofPlan_of_wraps h]
  cases hout : Statement.ofPlan r schema { plan with filter := p } with
  | error e => rfl
  | ok out =>
    have hquery := hplan out hout
    have hplain : SelectQuery.Plain { out.1 with condition := f out.1.condition } := hquery
    have hlike := h.alike out.1.condition
    show (prepared { out.1 with condition := f out.1.condition } db >>= fun read =>
        (db.answer read).mapError Violation.toStoreError >>= fun answers =>
          (answers.mapM (r.decode out.2)).mapError fun e => .database e.message) = _ ↔
      (prepared out.1 db >>= fun read =>
        (db.answer read).mapError Violation.toStoreError >>= fun answers =>
          (answers.mapM (r.decode out.2)).mapError fun e => .database e.message) = _
    simp only [bind_eq_ok, prepared_eq_ok_iff hquery, prepared_eq_ok_iff hplain]
    constructor
    · rintro ⟨_, ⟨hcolumns, hverified, rfl⟩, hanswer⟩
      rw [answer_of_alike hlike] at hanswer
      exact ⟨_, ⟨hcolumns, (verified_select_of_alike hquery hlike hcolumns).1 hverified, rfl⟩,
        hanswer⟩
    · rintro ⟨_, ⟨hcolumns, hverified, rfl⟩, hanswer⟩
      rw [← answer_of_alike hlike] at hanswer
      exact ⟨_, ⟨hcolumns, (verified_select_of_alike hquery hlike hcolumns).2 hverified, rfl⟩,
        hanswer⟩

/-! ## What is concerned -/

section

variable {statement : KeyQuery → Statement} {query : KeyQuery} (hany : p ≠ .any [])
include hany

/-- As many rows are counted as the filter selects. -/
theorem counted_eq_ok_iff_admits {n : Nat} : counted schema p r db = .ok n ↔
    db.Admits (Statement.ofCount r schema p) ∧ n = (p.selected r db schema).length := by
  have hcount : Statement.ofCount r schema p =
      (Rendering.start (Rendering.keys r schema p)).map .count := by
    unfold Statement.ofCount
    cases Rendering.start (Rendering.keys r schema p) <;> rfl
  rw [counted_eq_ok_iff, hcount]
  refine onRows_iff fun query hquery => ?_
  rw [Database.keys, List.length_map, (Rendering.selected_of_keys db hany hquery).2, eq_comm]

variable (hc : r.Creatable) (hdb : db.Regular r) (hs : schema ∈ r.schemas)
include hc hdb hs

/-- A row has one of the keys of the rows that a filter selects if it is one of them. -/
theorem hasKeyOf_eq_selects (hquery : Rendering.start (Rendering.keys r schema p) = .ok query)
    {row : Tuple} (hrow : row ∈ db.rows schema.tableName) :
    db.hasKeyOf query row = p.selects r db schema row := by
  obtain ⟨⟨-, hcolumn⟩, hselected⟩ := Rendering.selected_of_keys db hany hquery
  rw [Bool.eq_iff_iff]
  unfold Database.hasKeyOf Database.keys
  rw [hselected, hcolumn, List.any_map, List.any_eq_true]
  constructor
  · rintro ⟨other, hother, hequals⟩
    obtain ⟨hmem, hselects⟩ := List.mem_filter.1 hother
    obtain rfl := hdb.eq_of_equals hc hs hrow hmem hequals
    exact hselects
  · intro hselects
    exact ⟨row, List.mem_filter.2 ⟨hrow, hselects⟩,
      SqlValue.equals_self (hdb.idColumn_ne_null hc hs hrow)⟩

/-- The rows that a filter selects are deleted. -/
theorem destroyed_eq_ok_iff_admits {n : Nat} : destroyed schema p r db = .ok (db', n) ↔
    db.Admits (Statement.ofDelete r schema p) ∧
      db.deleteRows schema.tableName (p.selects r db schema) = (db', n) := by
  have hdelete : Statement.ofDelete r schema p =
      (Rendering.start (Rendering.keys r schema p)).map .delete := by
    unfold Statement.ofDelete
    cases Rendering.start (Rendering.keys r schema p) <;> rfl
  rw [destroyed_eq_ok_iff, hdelete]
  refine onRows_iff fun query hquery => ?_
  rw [(Rendering.selected_of_keys db hany hquery).1.1,
    Database.deleteRows_congr (Database.nodup_names hdb.sound.definitions hc)
      fun row hrow => hasKeyOf_eq_selects hany hc hdb hs hquery hrow]

/-- The rows that a filter selects are changed. -/
theorem updated_eq_ok_iff_admits {row : Object} (hrow : row.isEmpty = false) {n : Nat} :
    updated schema row p r db = .ok (db', n) ↔ db.Admits (Statement.ofUpdate r schema row p) ∧
      db.updateRows schema.tableName (p.selects r db schema)
        (row.map fun m => (columnName m.1, SqlValue.ofJson m.2)) = .ok (db', n) := by
  have hkeys (values : Tuple) : OnRows r db schema p (.update · values)
      (fun query => db.updateRows query.table (db.hasKeyOf query) values = .ok (db', n)) ↔
        db.Admits ((Rendering.start (Rendering.keys r schema p)).map (.update · values)) ∧
          db.updateRows schema.tableName (p.selects r db schema) values = .ok (db', n) := by
    refine onRows_iff fun query hquery => ?_
    rw [(Rendering.selected_of_keys db hany hquery).1.1,
      Database.updateRows_congr fun row hrow => hasKeyOf_eq_selects hany hc hdb hs hquery hrow]
  rw [updated_eq_ok_iff_onRows hrow]
  simp only [hkeys]
  constructor
  · rintro ⟨values, hvalues, ⟨statement, hstatement, hverified⟩, hupdate⟩
    obtain ⟨query, hquery, rfl⟩ := map_eq_ok.1 hstatement
    rw [← Statement.assignments_eq_ok hvalues]
    exact ⟨⟨_, bind_eq_ok.2 ⟨values, hvalues, bind_eq_ok.2 ⟨query, hquery, rfl⟩⟩, hverified⟩,
      hupdate⟩
  · rintro ⟨⟨statement, hstatement, hverified⟩, hupdate⟩
    obtain ⟨values, hvalues, hstatement⟩ := bind_eq_ok.1 hstatement
    obtain ⟨query, hquery, hstatement⟩ := bind_eq_ok.1 hstatement
    obtain rfl := pure_eq_ok.1 hstatement
    rw [← Statement.assignments_eq_ok hvalues] at hupdate
    exact ⟨values, hvalues, ⟨_, map_eq_ok.2 ⟨query, hquery, rfl⟩, hverified⟩, hupdate⟩

end

/-- The object holds what the selected fields of a row are decoded to, beside related rows. -/
def Decodes (r : Registry) (schema : Schema) (plan : Plan) (row : Tuple) (object : Object) : Prop :=
  ∃ related, r.decode (plan.outputs r schema)
    ((plan.attributes.names schema).map fun field => row.get (columnName field), related) =
      .ok object

/-- The rows that a filter selects, in the order of a plan's query. -/
def ordered (r : Registry) (db : Database) (schema : Schema) (p : Predicate) (plan : Plan) :
    List Tuple :=
  match Statement.ofPlan r schema { plan with filter := p } with
  | .ok out => db.sorted out.1
  | .error _ => p.selected r db schema

theorem ordered_perm (hany : p ≠ .any []) (plan : Plan) :
    (ordered r db schema p plan).Perm (p.selected r db schema) := by
  unfold ordered
  split
  · rename_i out hout
    obtain ⟨query, outputs⟩ := out
    obtain ⟨hrenders, -⟩ := Statement.renders_ofPlan hout
    obtain ⟨n, m, hn, hc⟩ := hrenders.condition
    rw [← Rendering.filtered_eq_selected hany hc hn, ← hrenders.table]
    exact db.sorted_perm query
  · exact .refl _

/-- The rows that are found with a wrapped filter are those in the window of a plan. -/
theorem decodes_of_found (h : q.Wraps p f) {plan : Plan} {objects : List Object}
    (hfound : found schema { plan with filter := q } r db = .ok objects) :
    List.Forall₂ (Decodes r schema plan)
      (window plan.limit plan.offset (ordered r db schema p plan)) objects := by
  obtain ⟨query, outputs, related, hquery, hall⟩ := select_of_found hfound
  obtain ⟨hrenders, -, rfl⟩ := Statement.renders_ofPlan hquery
  rw [Statement.ofPlan_of_wraps h] at hquery
  obtain ⟨⟨plain, outputs⟩, hplain, hout⟩ := map_eq_ok.1 hquery
  obtain ⟨rfl, -⟩ := Prod.mk.inj hout
  have hordered : ordered r db schema p plan = db.sorted plain := by
    unfold ordered
    rw [hplain]
  unfold Database.select Database.selected at hall
  rw [List.forall₂_map_left_iff, List.forall₂_map_left_iff] at hall
  rw [hordered, ← db.sorted_of_alike (h.alike plain.condition), ← hrenders.limit, ← hrenders.offset]
  refine hall.imp fun row object hdecode => ?_
  have hvalues := hrenders.values_eq row
  exact ⟨_, hvalues ▸ hdecode⟩

/-! ## Sessions -/

/-- In the session, the work answers and leaves the database behind. -/
def Does (s : Session) (x : Work α) (a : α) (db : Database) : Prop :=
  (x.run s).1 = .ok a ∧ (x.run s).2.database = db

theorem Changes.does_iff {x : Work α} {g : Registry → Database → Except StoreError (Database × α)}
    (hx : Changes x g) {s : Session} {a : α} :
    s.Does x a db ↔ g s.registry s.database = .ok (db, a) := by
  constructor
  · rintro ⟨ha, rfl⟩
    exact hx.eq_ok (Prod.ext ha rfl)
  · intro hg
    obtain ⟨s', hrun, rfl⟩ := hx.exists_run hg
    exact ⟨congrArg Prod.fst hrun, congrArg (·.2.database) hrun⟩

theorem Computes.does_iff {x : Work α} {g : Registry → Database → Except StoreError α}
    (hx : Computes x g) {s : Session} {a : α} :
    s.Does x a db ↔ g s.registry s.database = .ok a ∧ db = s.database := by
  rw [hx.changes.does_iff, map_eq_ok]
  constructor
  · rintro ⟨_, hg, he⟩
    obtain ⟨rfl, rfl⟩ := Prod.mk.inj he
    exact ⟨hg, rfl⟩
  · rintro ⟨hg, rfl⟩
    exact ⟨a, hg, rfl⟩

/-- Given the first filter, the operations do what they do given the second one, and they concern
the rows that the second one selects. A plan asks for these in some order. -/
structure Concerns (s : Session) (schema : Schema) (q p : Predicate) (order : Plan → List Tuple) :
    Prop where
  /-- What is found are the rows in the window of the plan. -/
  find : ∀ plan (objects : List Object) db,
    s.Does (perform (.find schema { plan with filter := q })) objects db →
    db = s.database ∧ List.Forall₂ (Decodes s.registry schema plan)
      (window plan.limit plan.offset (order plan)) objects
  find_iff : ∀ plan, Plain s.registry schema p plan → ∀ (objects : List Object) db,
    s.Does (perform (.find schema { plan with filter := q })) objects db ↔
      s.Does (perform (.find schema { plan with filter := p })) objects db
  count : ∀ (n : Nat) db, s.Does (perform (.count schema q)) n db ↔
    s.database.Admits (Statement.ofCount s.registry schema p) ∧
      n = (p.selected s.registry s.database schema).length ∧ db = s.database
  update_iff : ∀ row (n : Nat) db, s.Does (perform (.update schema row q)) n db ↔
    s.Does (perform (.update schema row p)) n db
  destroy_iff : ∀ (n : Nat) db, s.Does (perform (.destroy schema q)) n db ↔
    s.Does (perform (.destroy schema p)) n db

/-- Given the filter, the rows are changed and deleted that it selects. -/
structure Alters (s : Session) (schema : Schema) (p : Predicate) : Prop where
  update : ∀ row (n : Nat) db, row.isEmpty = false → (s.Does (perform (.update schema row p)) n db ↔
    s.database.Admits (Statement.ofUpdate s.registry schema row p) ∧
      s.database.updateRows schema.tableName (p.selects s.registry s.database schema)
        (row.map fun m => (columnName m.1, SqlValue.ofJson m.2)) = .ok (db, n))
  destroy : ∀ (n : Nat) db, s.Does (perform (.destroy schema p)) n db ↔
    s.database.Admits (Statement.ofDelete s.registry schema p) ∧
      s.database.deleteRows schema.tableName (p.selects s.registry s.database schema) = (db, n)

/-- **The operations concern the rows that a filter selects**, alone or in a conjunction or a
disjunction of its own. -/
theorem concerns_wrapped {s : Session} (hany : p ≠ .any []) (schema : Schema) :
    (∃ order : Plan → List Tuple,
      (∀ plan, (order plan).Perm (p.selected s.registry s.database schema)) ∧
        ∀ q ∈ p.wrapped, s.Concerns schema q p order) ∧
      (s.registry.Creatable → s.database.Regular s.registry → schema ∈ s.registry.schemas →
        s.Alters schema p) := by
  refine ⟨⟨ordered s.registry s.database schema p, ordered_perm hany, fun q hq => ?_⟩,
    fun hc hdb hs => ⟨fun row n db hrow => ?_, fun n db => ?_⟩⟩
  · obtain ⟨f, h⟩ := Predicate.exists_wraps hany hq
    constructor
    · intro plan objects db hdoes
      obtain ⟨hfound, rfl⟩ := (computes_find schema _).does_iff.1 hdoes
      exact ⟨rfl, decodes_of_found h hfound⟩
    · intro plan hplain objects db
      exact (computes_find schema _).does_iff.trans
        ((and_congr_left fun _ => found_of_wraps h hplain).trans
          (computes_find schema _).does_iff.symm)
    · intro n db
      refine (computes_count schema q).does_iff.trans ?_
      rw [counted_of_wraps h, counted_eq_ok_iff_admits hany, and_assoc]
    · intro row n db
      exact (changes_update schema row q).does_iff.trans
        ((updated_of_wraps h).trans (changes_update schema row p).does_iff.symm)
    · intro n db
      exact (changes_destroy schema q).does_iff.trans
        ((destroyed_of_wraps h).trans (changes_destroy schema p).does_iff.symm)
  · exact (changes_update schema row p).does_iff.trans
      (updated_eq_ok_iff_admits hany hc hdb hs hrow)
  · exact (changes_destroy schema p).does_iff.trans (destroyed_eq_ok_iff_admits hany hc hdb hs)

/-- A session after the store has created rows. -/
def holding (r : Registry) (schema : Schema) (rows : List Object) : Session :=
  (run (fun _ => "") (Action.perform .store (.bulkCreate schema rows)).run r.unused).2

/-- A session with two nodes. -/
def twoNodes : Session := holding tree treeNode [[("name", .str "x")], [("name", .str "y")]]

theorem reachable_twoNodes : Reachable tree twoNodes :=
  .run _ _ (.start (Registry.start_unused (by decide +kernel)))

/-- The nodes of a name, written with two lists of a predicate and of none. -/
def namedY : Predicate := .any [.all [.condition ⟨⟨[], "name"⟩, .eq, .str "y"⟩], .any []]

/-- The second of two nodes is found, counted, changed and deleted. -/
theorem concerns_second : namedY ≠ .any [] ∧
    namedY.selected tree twoNodes.database treeNode =
      [[("id", .integer 2), ("name", .text "y"), ("up_id", .null)]] ∧
    (∃ order : Plan → List Tuple,
      (∀ plan, (order plan).Perm (namedY.selected tree twoNodes.database treeNode)) ∧
        ∀ q ∈ namedY.wrapped, twoNodes.Concerns treeNode q namedY order) ∧
      (tree.Creatable ∧ twoNodes.database.Regular tree ∧ treeNode ∈ tree.schemas) ∧
        twoNodes.Alters treeNode namedY := by
  have hany : namedY ≠ .any [] := by nofun
  obtain ⟨hc, hregular⟩ := regular_of_reachable assemble_node (by decide) reachable_twoNodes
  obtain ⟨hconcerns, halters⟩ := concerns_wrapped (s := twoNodes) hany treeNode
  exact ⟨hany, by decide +kernel, hconcerns, ⟨hc, hregular.database, by decide⟩,
    halters hc hregular.database (by decide)⟩

/-- Items by their numbers. -/
def numberedItem : Schema where
  name := "Item"
  idType := .integer
  attributes := [{ name := "name", type := .string }, { name := "rank", type := .integer }]

/-- Items by their names, in a table of the same name. -/
def namedItem : Schema where
  name := "item"
  idField := "name"
  attributes := [{ name := "rank", type := .integer }]

/-- Both kinds of items. -/
def items : Registry := ⟨[numberedItem, namedItem], [], []⟩

/-- A session with two items of one name. -/
def twoItems : Session := holding items numberedItem
  [[("name", .str "x"), ("rank", .int 1)], [("name", .str "x"), ("rank", .int 2)]]

/-- The items of the first rank. -/
def firstRank : Predicate := .condition ⟨⟨[], "rank"⟩, .eq, .int 1⟩

/-- **The disjunction of nothing concerns every row.** It selects none, and none is concerned where
it stands in a list. Where two schemas share a table, rows are changed that a filter does not
select. -/
theorem any_nil_concerns_all :
    (Registry.assemble [treeNode] = .ok tree ∧ Reachable tree twoNodes ∧
      (Predicate.any []).selected tree twoNodes.database treeNode = [] ∧
      twoNodes.Does (perform (.count treeNode (.any []))) (2 : Nat) twoNodes.database ∧
      twoNodes.Does (perform (.count treeNode (.all [.any []]))) (0 : Nat) twoNodes.database ∧
      twoNodes.Does (perform (.count treeNode (.any [.any []]))) (0 : Nat) twoNodes.database ∧
      ∃ db, twoNodes.Does (perform (.destroy treeNode (.any []))) (2 : Nat) db ∧
        db.rows treeNode.tableName = []) ∧
    Registry.assemble [numberedItem, namedItem] = .ok items ∧ Reachable items twoItems ∧
      (firstRank.selected items twoItems.database namedItem).length = 1 ∧
      ∃ db, twoItems.Does (perform (.update namedItem [("rank", .int 3)] firstRank)) (2 : Nat) db := by
  refine ⟨⟨assemble_node, reachable_twoNodes, by decide +kernel, ⟨?_, ?_⟩, ⟨?_, ?_⟩, ⟨?_, ?_⟩,
    _, ⟨?_, rfl⟩, ?_⟩, by decide +kernel, ?_, by decide +kernel, _, ?_, rfl⟩
  case refine_9 => exact .run _ _ (.start (Registry.start_unused (by decide +kernel)))
  all_goals decide +kernel

end Session

end ResourceApi
