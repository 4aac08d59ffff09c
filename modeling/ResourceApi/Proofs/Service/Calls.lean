import ResourceApi.Proofs.Engine.Refusals
import ResourceApi.Proofs.Service.Answers
import ResourceApi.Proofs.Service.Paths
import ResourceApi.Proofs.Write.Attributes

/-!
# Calls of requests

Serving a route checks its input first (`Service.screen`): the query string, the identifier in the path
and the document. What is left is an action of the engine, whose own checks of a payload come before
its first call as well. `Service.Refused` lists all of these checks.

**Theorem (`Service.calls_of_requests`).** On any store, a request leads to no call exactly if it has
no route or is refused. To read makes only finds and counts, and to delete makes only deletions. A
failure is always reported with an error, and with one error once a call was made.
-/

namespace ResourceApi

/-! ## Rejections -/

/-- A query string is rejected with an error. -/
theorem Plan.errors_of_ofQuery {r : Registry} {schema : Schema} {query : String}
    {id : Option String} {rejection : Rejection}
    (h : Plan.ofQuery r schema query id = .error rejection) : rejection.errors ≠ [] := by
  unfold Plan.ofQuery at h
  split at h
  · cases h
    exact List.cons_ne_nil _ _
  · unfold Plan.compile at h
    dsimp only at h
    split at h
    · cases h
    · rename_i hne
      cases h
      simpa using hne

/-- A document is rejected with an error. -/
theorem Payload.errors_of_ofDocument {r : Registry} {schema : Schema} {mode : WriteMode}
    {body : Json} {rejection : Rejection}
    (h : Payload.ofDocument r schema mode body = .error rejection) : rejection.errors ≠ [] := by
  rcases Payload.ofDocument_eq_error_iff.1 h with hstructure | ⟨-, hne, rfl⟩
  · obtain ⟨hne, rfl⟩ := Document.checkStructure_eq_error_iff.1 hstructure
    exact mt List.map_eq_nil_iff.1 hne
  · exact mt List.map_eq_nil_iff.1 hne

namespace Service

/-! ## Runs of serving -/

section Runs

variable {α β : Type}

/-- Serving can end with the result after the exchanges. -/
def Runs (x : Serving α) (t : List Exchange) (result : Except Failure α) : Prop :=
  Program.Runs x.run t result

variable {t : List Exchange}

theorem runs_accept_bind {input : Except Rejection α} {f : α → Serving β}
    {result : Except Failure β} :
    Runs (accept input >>= f) t result ↔
      match input with
      | .error rejection => t = [] ∧ result = .error (.rejected rejection)
      | .ok a => Runs (f a) t result := by
  cases input with
  | error rejection => exact Program.runs_done
  | ok a => exact Iff.rfl

theorem runs_check_bind {input : Except ApiError α} {f : α → Serving β}
    {result : Except Failure β} :
    Runs (act (liftM input : Action α) >>= f) t result ↔
      match input with
      | .error e => t = [] ∧ result = .error (.failed e)
      | .ok a => Runs (f a) t result := by
  cases input with
  | error e => exact Program.runs_done
  | ok a => exact Iff.rfl

/-- An action is the last part of serving. -/
theorem runs_act_map {x : Action α} {g : α → β} {result : Except Failure β} :
    Runs (act x >>= fun a => pure (g a)) t result ↔
      ∃ answer, Action.Runs (g <$> x) t answer ∧ result = answer.mapError .failed := by
  have hrun : (act x >>= fun a => pure (g a)).run =
      (g <$> x).run >>= fun answer => pure (answer.mapError .failed) := by
    show (Except.mapError Failure.failed <$> x.run) >>= _ = _
    rw [ExceptT.run_map, map_eq_pure_bind, map_eq_pure_bind, bind_assoc, bind_assoc]
    congr 1
    funext answer
    cases answer <;> rfl
  unfold Runs Action.Runs
  rw [hrun]
  simp only [Program.runs_bind, Program.pure_eq, Program.runs_done]
  constructor
  · rintro ⟨u, v, answer, rfl, hu, rfl, rfl⟩
    exact ⟨answer, by rwa [List.append_nil], rfl⟩
  · rintro ⟨answer, ht, rfl⟩
    exact ⟨t, [], answer, (List.append_nil t).symm, ht, rfl, rfl⟩

end Runs

/-! ## Screening -/

/-- The action behind a route, if the input passes the checks of serving. -/
def screen (r : Registry) (query : String) (body : Json) : Route → Except Failure (Action Outcome)
  | .findAll schema => do
    let plan ← (Plan.ofQuery r schema query none).mapError .rejected
    return (fun found => .found found.1 found.2 plan) <$> Engine.findAll .store schema plan
  | .findOne schema raw => do
    let plan ← (Plan.ofQuery r schema query (some raw)).mapError .rejected
    let id ← (pathId schema raw).mapError .failed
    return (.foundOne · plan) <$> Engine.findOne .store schema id plan
  | .create schema => do
    let payload ← (Payload.ofDocument r schema .create body).mapError .rejected
    return .created <$> Engine.create r schema payload
  | .update schema raw => do
    let id ← (pathId schema raw).mapError .failed
    let payload ← (Payload.ofDocument r schema .update body).mapError .rejected
    return .updated <$> Engine.update r schema id payload
  | .destroy schema raw => do
    let id ← (pathId schema raw).mapError .failed
    return (fun _ => .destroyed) <$> Engine.destroy .store schema id

variable {r : Registry} {query : String} {body : Json} {route : Route} {t : List Exchange}
  {result : Except Failure Outcome}

/-- **Serving checks first**, and then runs the admitted action. -/
theorem runs_serve : Runs (serve r query body route) t result ↔
    match screen r query body route with
    | .error failure => t = [] ∧ result = .error failure
    | .ok action => ∃ answer, action.Runs t answer ∧ result = answer.mapError .failed := by
  cases route with
  | findAll schema =>
    rw [serve, screen, runs_accept_bind]
    cases Plan.ofQuery r schema query none with
    | error => exact Iff.rfl
    | ok plan => exact runs_act_map
  | findOne schema raw =>
    rw [serve, screen, runs_accept_bind]
    cases Plan.ofQuery r schema query (some raw) with
    | error => exact Iff.rfl
    | ok plan =>
      refine runs_check_bind.trans ?_
      cases pathId schema raw with
      | error => exact Iff.rfl
      | ok id => exact runs_act_map
  | create schema =>
    rw [serve, screen, runs_accept_bind]
    cases Payload.ofDocument r schema .create body with
    | error => exact Iff.rfl
    | ok payload => exact runs_act_map
  | update schema raw =>
    rw [serve, screen, runs_check_bind]
    cases pathId schema raw with
    | error => exact Iff.rfl
    | ok id =>
      refine runs_accept_bind.trans ?_
      cases Payload.ofDocument r schema .update body with
      | error => exact Iff.rfl
      | ok payload => exact runs_act_map
  | destroy schema raw =>
    rw [serve, screen, runs_check_bind]
    cases pathId schema raw with
    | error => exact Iff.rfl
    | ok id => exact runs_act_map

/-- The query string, the identifier in the path or the document of a request is refused, by the
checks of serving or by those that the engine makes of a payload. -/
def Refused (r : Registry) (query : String) (body : Json) : Route → Prop
  | .findAll schema => ∃ e, Plan.ofQuery r schema query none = .error e
  | .findOne schema raw =>
    (∃ e, Plan.ofQuery r schema query (some raw) = .error e) ∨ schema.parseId? raw = none
  | .create schema =>
    (∃ e, Payload.ofDocument r schema .create body = .error e) ∨
      ∃ payload e, Payload.ofDocument r schema .create body = .ok payload ∧
        Engine.parts r schema payload = .error e
  | .update schema raw =>
    schema.parseId? raw = none ∨ (∃ e, Payload.ofDocument r schema .update body = .error e) ∨
      ∃ payload, Payload.ofDocument r schema .update body = .ok payload ∧
        ((∃ id e, schema.parseId? raw = some id ∧
          Engine.checkPayloadId schema id payload = .error e) ∨
        ∃ e, Engine.parts r schema payload = .error e)
  | .destroy schema raw => schema.parseId? raw = none

theorem pathId_eq_error {schema : Schema} {raw : String} {e : ApiError}
    (h : pathId schema raw = .error e) : schema.parseId? raw = none := by
  unfold pathId at h
  split at h
  · cases h
  · assumption

/-- What is not admitted is refused, and reported with an error. -/
theorem refused_of_screen {failure : Failure} (h : screen r query body route = .error failure) :
    Refused r query body route ∧ failure.errors ≠ [] := by
  cases route with
  | findAll schema =>
    simp only [screen, bind_eq_error, mapError_eq_error, mapError_eq_ok, pure_ne_error, and_false,
      exists_false, or_false] at h
    obtain ⟨e, hplan, rfl⟩ := h
    exact ⟨⟨e, hplan⟩, Plan.errors_of_ofQuery hplan⟩
  | findOne schema raw =>
    simp only [screen, bind_eq_error, mapError_eq_error, mapError_eq_ok, pure_ne_error, and_false,
      exists_false, or_false] at h
    obtain ⟨e, hplan, rfl⟩ | ⟨plan, hplan, e, hid, rfl⟩ := h
    · exact ⟨.inl ⟨e, hplan⟩, Plan.errors_of_ofQuery hplan⟩
    · exact ⟨.inr (pathId_eq_error hid), List.cons_ne_nil _ _⟩
  | create schema =>
    simp only [screen, bind_eq_error, mapError_eq_error, mapError_eq_ok, pure_ne_error, and_false,
      exists_false, or_false] at h
    obtain ⟨e, hpayload, rfl⟩ := h
    exact ⟨.inl ⟨e, hpayload⟩, Payload.errors_of_ofDocument hpayload⟩
  | update schema raw =>
    simp only [screen, bind_eq_error, mapError_eq_error, mapError_eq_ok, pure_ne_error, and_false,
      exists_false, or_false] at h
    obtain ⟨e, hid, rfl⟩ | ⟨id, hid, e, hpayload, rfl⟩ := h
    · exact ⟨.inl (pathId_eq_error hid), List.cons_ne_nil _ _⟩
    · exact ⟨.inr (.inl ⟨e, hpayload⟩), Payload.errors_of_ofDocument hpayload⟩
  | destroy schema raw =>
    simp only [screen, bind_eq_error, mapError_eq_error, mapError_eq_ok, pure_ne_error, and_false,
      exists_false, or_false] at h
    obtain ⟨e, hid, rfl⟩ := h
    exact ⟨pathId_eq_error hid, List.cons_ne_nil _ _⟩

/-- Of an admitted request, only the payload is still refused. -/
theorem runs_nil_of_screen {action : Action Outcome} {answer : Except ApiError Outcome}
    (h : screen r query body route = .ok action) (hruns : action.Runs t answer) :
    t = [] ↔ Refused r query body route := by
  cases route with
  | findAll schema =>
    simp only [screen, bind_eq_ok, mapError_eq_ok, pure_eq_ok] at h
    obtain ⟨plan, hplan, rfl⟩ := h
    exact iff_of_false ((Engine.calls_findAll.map _).ne_nil hruns) (by simp [Refused, hplan])
  | findOne schema raw =>
    simp only [screen, bind_eq_ok, mapError_eq_ok, pure_eq_ok, pathId_eq_ok] at h
    obtain ⟨plan, hplan, id, hid, rfl⟩ := h
    exact iff_of_false ((Engine.calls_findOne.map _).ne_nil hruns) (by simp [Refused, hplan, hid])
  | create schema =>
    simp only [screen, bind_eq_ok, mapError_eq_ok, pure_eq_ok] at h
    obtain ⟨payload, hpayload, rfl⟩ := h
    obtain ⟨_, hcreate, -⟩ := Action.runs_map.1 hruns
    rw [Engine.runs_create_nil hcreate]
    simp [Refused, hpayload]
  | update schema raw =>
    simp only [screen, bind_eq_ok, mapError_eq_ok, pure_eq_ok, pathId_eq_ok] at h
    obtain ⟨id, hid, payload, hpayload, rfl⟩ := h
    obtain ⟨_, hupdate, -⟩ := Action.runs_map.1 hruns
    rw [Engine.runs_update_nil hupdate]
    simp [Refused, hpayload, hid]
  | destroy schema raw =>
    simp only [screen, bind_eq_ok, mapError_eq_ok, pure_eq_ok, pathId_eq_ok] at h
    obtain ⟨id, hid, rfl⟩ := h
    exact iff_of_false ((Engine.calls_destroy.map _).ne_nil hruns) (by simp [Refused, hid])

/-- **Refused input makes no call**, and other input makes one. -/
theorem runs_serve_nil (h : Runs (serve r query body route) t result) :
    t = [] ↔ Refused r query body route := by
  rw [runs_serve] at h
  cases hscreen : screen r query body route with
  | error failure =>
    rw [hscreen] at h
    exact iff_of_true h.1 (refused_of_screen hscreen).1
  | ok action =>
    rw [hscreen] at h
    obtain ⟨answer, hruns, -⟩ := h
    exact runs_nil_of_screen hscreen hruns

/-- **A failure has an error**, and one error after a call. -/
theorem errors_of_serve {failure : Failure}
    (h : Runs (serve r query body route) t (.error failure)) :
    failure.errors ≠ [] ∧ (t ≠ [] → failure.errors.length = 1) := by
  rw [runs_serve] at h
  cases hscreen : screen r query body route with
  | error failure =>
    rw [hscreen] at h
    obtain ⟨rfl, hfailure⟩ := h
    cases hfailure
    exact ⟨(refused_of_screen hscreen).2, absurd rfl⟩
  | ok action =>
    rw [hscreen] at h
    obtain ⟨_ | _, -, hanswer⟩ := h <;> cases hanswer
    exact ⟨List.cons_ne_nil _ _, fun _ => rfl⟩

/-! ## Methods -/

/-- A call that a request to read makes. -/
inductive Reads : Call → Prop
  | find (schema : Schema) (plan : Plan) : Reads (.perform .store (.find schema plan))
  | count (schema : Schema) (filter : Predicate) : Reads (.perform .store (.count schema filter))

/-- A call that a request to delete makes. -/
inductive Deletes : Call → Prop
  | destroy (schema : Schema) (filter : Predicate) :
      Deletes (.perform .store (.destroy schema filter))

/-- A property of the calls of the admitted action is one of all calls. -/
theorem always_serve {P : Call → Prop} (h : Runs (serve r query body route) t result)
    (hP : ∀ action, screen r query body route = .ok action → action.Always P) :
    ∀ e ∈ t, P e.call := by
  rw [runs_serve] at h
  cases hscreen : screen r query body route with
  | error failure =>
    rw [hscreen] at h
    simp [h.1]
  | ok action =>
    rw [hscreen] at h
    obtain ⟨answer, hruns, -⟩ := h
    exact hP action hscreen _ _ hruns

theorem reads_of_findAll {schema : Schema}
    (h : Runs (serve r query body (.findAll schema)) t result) : ∀ e ∈ t, Reads e.call := by
  refine always_serve h fun action hscreen => ?_
  simp only [screen, bind_eq_ok, mapError_eq_ok, pure_eq_ok] at hscreen
  obtain ⟨plan, -, rfl⟩ := hscreen
  exact (Engine.always_findAll (.find _ _) (.count _ _)).map _

theorem reads_of_findOne {schema : Schema} {raw : String}
    (h : Runs (serve r query body (.findOne schema raw)) t result) : ∀ e ∈ t, Reads e.call := by
  refine always_serve h fun action hscreen => ?_
  simp only [screen, bind_eq_ok, mapError_eq_ok, pure_eq_ok] at hscreen
  obtain ⟨plan, -, id, -, rfl⟩ := hscreen
  exact (Engine.always_findOne (.find _ _)).map _

theorem deletes_of_destroy {schema : Schema} {raw : String}
    (h : Runs (serve r query body (.destroy schema raw)) t result) : ∀ e ∈ t, Deletes e.call := by
  refine always_serve h fun action hscreen => ?_
  simp only [screen, bind_eq_ok, mapError_eq_ok, pure_eq_ok] at hscreen
  obtain ⟨id, -, rfl⟩ := hscreen
  exact (Engine.always_destroy (.destroy _ _)).map _

/-! ## Requests -/

variable {service : Service} {request : Request}

/-- What asks for a resource reads it. -/
theorem route_of_get (h : service.route? request = some route) (hget : request.method = .get) :
    (∃ schema, route = .findAll schema) ∨ ∃ schema raw, route = .findOne schema raw := by
  obtain ⟨body, -, hleads⟩ := Route.resolve?_eq_some_iff.1 h
  rw [hget] at hleads
  obtain ⟨-, hroute⟩ | ⟨-, -, -, -, -, hroute⟩ := hleads
  · cases hroute
    exact .inl ⟨_, rfl⟩
  · cases hroute
    exact .inr ⟨_, _, rfl⟩

theorem route_of_delete (h : service.route? request = some route)
    (hdelete : request.method = .delete) : ∃ schema raw, route = .destroy schema raw := by
  obtain ⟨body, -, hleads⟩ := Route.resolve?_eq_some_iff.1 h
  rw [hdelete] at hleads
  obtain ⟨-, hroute⟩ | ⟨-, -, -, -, -, hroute⟩ := hleads
  · cases hroute
  · cases hroute
    exact ⟨_, _, rfl⟩

/-- The answers that a request can have after the exchanges with a store. Without a route it has
none, and the store is not called. -/
inductive Answers (service : Service) (request : Request) :
    List Exchange → Option (Except Failure Outcome) → Prop
  | unrouted : service.dispatch request = none → Answers service request [] none
  | served {serving : Serving Outcome} {t : List Exchange} {result : Except Failure Outcome} :
      service.dispatch request = some serving → Runs serving t result →
        Answers service request t (some result)

/-- What is served has a route. -/
theorem route_of_dispatch {serving : Serving Outcome} (h : service.dispatch request = some serving) :
    ∃ route, service.route? request = some route ∧
      serve service.registry request.query (request.body.getD .null) route = serving :=
  Option.map_eq_some_iff.1 h

/-- **Calls of requests.** -/
theorem calls_of_requests (service : Service) (request : Request)
    {answer : Option (Except Failure Outcome)} (h : service.Answers request t answer) :
    (t = [] ↔ service.dispatch request = none ∨ ∃ route, service.route? request = some route ∧
      Refused service.registry request.query (request.body.getD .null) route) ∧
    (request.method = .get → ∀ e ∈ t, Reads e.call) ∧
    (request.method = .delete → ∀ e ∈ t, Deletes e.call) ∧
    ∀ failure, answer = some (.error failure) →
      failure.errors ≠ [] ∧ (t ≠ [] → failure.errors.length = 1) := by
  cases h with
  | unrouted h => exact ⟨iff_of_true rfl (.inl h), by simp, by simp, nofun⟩
  | served hserving hruns =>
    obtain ⟨route, hroute, rfl⟩ := route_of_dispatch hserving
    refine ⟨?_, fun hget => ?_, fun hdelete => ?_, ?_⟩
    · simp [runs_serve_nil hruns, hserving, hroute]
    · obtain ⟨schema, rfl⟩ | ⟨schema, raw, rfl⟩ := route_of_get hroute hget
      · exact reads_of_findAll hruns
      · exact reads_of_findOne hruns
    · obtain ⟨schema, raw, rfl⟩ := route_of_delete hroute hdelete
      exact deletes_of_destroy hruns
    · rintro failure hfailure
      cases hfailure
      exact errors_of_serve hruns

/-- The request for all nodes. -/
def allNodes : Request := ⟨.get, "/api/nodes", "", none⟩

/-- The failure of a store. -/
def diskError : StoreError := .database "disk I/O error"

/-- A store that fails to count the nodes it found. -/
def uncounted : List Exchange :=
  [⟨.perform .store (.find treeNode {}), .ok []⟩,
    ⟨.perform .store (.count treeNode .everything), .error diskError⟩]

/-- All nodes are asked for, but cannot be counted. -/
theorem calls_of_allNodes :
    Answers ⟨tree, "/api"⟩ allNodes uncounted (some (.error (.failed diskError.toApiError))) ∧
    (∀ e ∈ uncounted, Reads e.call) ∧ (Failure.failed diskError.toApiError).errors.length = 1 := by
  have hroute : Service.route? ⟨tree, "/api"⟩ allNodes = some (.findAll treeNode) := by
    decide +kernel
  have hplan : Plan.ofQuery tree treeNode "" none = .ok {} := by rfl
  have hfind : (Engine.findAll .store treeNode {}).Runs uncounted (.error diskError.toApiError) :=
    Action.runs_perform_bind.2 ⟨.ok [], _, rfl,
      Action.runs_perform_bind.2 ⟨.error diskError, [], rfl, rfl, rfl⟩⟩
  have hserve : Runs (serve tree "" .null (.findAll treeNode)) uncounted
      (.error (.failed diskError.toApiError)) := by
    rw [runs_serve, screen, hplan]
    exact ⟨_, Action.runs_map.2 ⟨_, hfind, rfl⟩, rfl⟩
  have hanswers := Answers.served (dispatch_of_route hroute) hserve
  obtain ⟨-, hreads, -, herrors⟩ := calls_of_requests _ _ hanswers
  exact ⟨hanswers, hreads rfl, (herrors _ rfl).2 (List.cons_ne_nil _ _)⟩

end Service

end ResourceApi
