import ResourceApi.Proofs.Store.Success
import ResourceApi.Service.Dispatch

/-!
# Answers of requests

**Theorems (`Service.answers_created_iff`, `Service.answers_updated_iff`).** A request is answered
with the record of a new row exactly where its document is read for a create, and the create succeeds
in the same session with this record. So it is with an update, whose row is named by the path.
-/

namespace ResourceApi.Service

open Session

variable {α β : Type} {r : Registry} {schema : Schema} {supply : Nat → String} {s s' : Session}
  {query raw : String} {body : Json} {record : Record}

/-- A request that has a route is served. -/
theorem dispatch_of_route {service : Service} {request : Request} {route : Route}
    (h : service.route? request = some route) : service.dispatch request =
      some (serve service.registry request.query (request.body.getD .null) route) := by
  rw [dispatch, h]
  rfl

/-- Serving goes on with what an action answers. -/
theorem run_act_bind_iff {action : Action α} {f : α → Serving β} {b : β} :
    run supply (act action >>= f).run s = (.ok (.ok b), s') ↔
      ∃ a mid, run supply action.run s = (.ok (.ok a), mid) ∧
        run supply (f a).run mid = (.ok (.ok b), s') := by
  have hact : run supply (act action).run s = run supply (action.run >>= fun result =>
      pure (result.mapError Failure.failed)) s := by
    show run supply (Except.mapError Failure.failed <$> action.run) s = _
    rw [map_eq_pure_bind]
  rw [run_program_bind] at hact
  constructor
  · intro h
    obtain ⟨a, mid, hfirst, hrest⟩ := Action.exists_of_run_bind h
    refine ⟨a, mid, ?_, hrest⟩
    rw [hact] at hfirst
    generalize run supply action.run s = out at hfirst ⊢
    obtain ⟨_ | _ | answer, last⟩ := out
    · exact nomatch (Prod.mk.inj hfirst).1
    · exact nomatch Except.ok.inj (Prod.mk.inj hfirst).1
    · obtain ⟨ha, rfl⟩ := Prod.mk.inj hfirst
      rw [Except.ok.inj (Except.ok.inj ha)]
  · rintro ⟨a, mid, haction, hrest⟩
    rw [haction] at hact
    rw [ExceptT.run_bind, run_program_bind, hact]
    exact hrest

/-- Serving goes on with accepted input. -/
theorem run_accept_bind_iff {input : Except Rejection α} {f : α → Serving β} {b : β} :
    run supply (accept input >>= f).run s = (.ok (.ok b), s') ↔
      ∃ a, input = .ok a ∧ run supply (f a).run s = (.ok (.ok b), s') := by
  cases input with
  | error rejection =>
    constructor
    · intro h
      exact nomatch Except.ok.inj (Prod.mk.inj h).1
    · rintro ⟨a, ha, -⟩
      cases ha
  | ok a =>
    refine ⟨fun h => ⟨a, rfl, h⟩, ?_⟩
    rintro ⟨_, ha, h⟩
    obtain rfl := Except.ok.inj ha
    exact h

theorem run_pure_iff {a b : Outcome} :
    run supply (pure a : Serving Outcome).run s = (.ok (.ok b), s') ↔ b = a ∧ s' = s := by
  refine ⟨Action.of_run_pure, ?_⟩
  rintro ⟨rfl, rfl⟩
  rfl

/-- **A created record** is that of a create with the document. -/
theorem answers_created_iff :
    run supply (serve r query body (.create schema)).run s = (.ok (.ok (.created record)), s') ↔
      ∃ payload, Payload.ofDocument r schema .create body = .ok payload ∧
        run supply (Engine.create r schema payload).run s = (.ok (.ok record), s') := by
  unfold serve
  simp only [run_accept_bind_iff, run_act_bind_iff, run_pure_iff, Outcome.created.injEq]
  constructor
  · rintro ⟨payload, hpayload, created, mid, hcreate, rfl, rfl⟩
    exact ⟨payload, hpayload, hcreate⟩
  · rintro ⟨payload, hpayload, hcreate⟩
    exact ⟨payload, hpayload, record, s', hcreate, rfl, rfl⟩

theorem pathId_eq_ok {id : Json} : pathId schema raw = .ok id ↔ schema.parseId? raw = some id := by
  unfold pathId
  cases schema.parseId? raw <;> simp

/-- **An updated record** is that of an update of the named row with the document. -/
theorem answers_updated_iff :
    run supply (serve r query body (.update schema raw)).run s =
        (.ok (.ok (.updated record)), s') ↔
      ∃ id payload, schema.parseId? raw = some id ∧
        Payload.ofDocument r schema .update body = .ok payload ∧
        run supply (Engine.update r schema id payload).run s = (.ok (.ok record), s') := by
  have hnamed {id : Json} {mid : Session} :
      run supply (liftM (pathId schema raw) : Action Json).run s = (.ok (.ok id), mid) ↔
        schema.parseId? raw = some id ∧ mid = s := by
    rw [← pathId_eq_ok]
    constructor
    · intro h
      obtain ⟨hid, rfl⟩ := Prod.mk.inj h
      exact ⟨Except.ok.inj hid, rfl⟩
    · rintro ⟨hid, rfl⟩
      exact Prod.ext (congrArg Except.ok hid) rfl
  unfold serve
  simp only [run_accept_bind_iff, run_act_bind_iff, run_pure_iff, Outcome.updated.injEq, hnamed]
  constructor
  · rintro ⟨id, _, ⟨hid, rfl⟩, payload, hpayload, updated, mid, hupdate, rfl, rfl⟩
    exact ⟨id, payload, hid, hpayload, hupdate⟩
  · rintro ⟨id, payload, hid, hpayload, hupdate⟩
    exact ⟨id, s, ⟨hid, rfl⟩, payload, hpayload, record, s', hupdate, rfl, rfl⟩

end ResourceApi.Service
