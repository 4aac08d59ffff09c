import ResourceApi.Proofs.Engine.Transaction

/-!
# Refused payloads

An action may end before its first call, and some parts of an action make no call at all.

**Theorems (`Engine.runs_create_nil`, `Engine.runs_update_nil`).** A create or update leaves the store
alone exactly if its payload is refused: it cannot be divided into parts or is for another row.
-/

namespace ResourceApi

namespace Action

variable {α β : Type} {x : Action α} {f : α → Action β}

/-- The action makes no call and does not fail. -/
def Silent (x : Action α) : Prop := ∀ t result, x.Runs t result → t = [] ∧ ∃ a, result = .ok a

theorem silent_pure (a : α) : (pure a : Action α).Silent := by
  intro t result h
  obtain ⟨rfl, rfl⟩ := runs_pure.1 h
  exact ⟨rfl, a, rfl⟩

theorem Silent.bind (hx : x.Silent) (hf : ∀ a, (f a).Silent) : (x >>= f).Silent := by
  intro t result h
  obtain ⟨e, hruns, -⟩ | ⟨t, u, a, rfl, ht, hu⟩ := runs_bind.1 h
  · obtain ⟨-, a, ha⟩ := hx _ _ hruns
    cases ha
  · obtain ⟨rfl, -⟩ := hx _ _ ht
    exact hf a u result hu

theorem silent_mapM {f : α → Action β} (hf : ∀ a, (f a).Silent) (xs : List α) :
    (xs.mapM f).Silent := by
  induction xs with
  | nil => simpa using silent_pure []
  | cons x xs ih =>
    rw [List.mapM_cons]
    exact (hf x).bind fun _ => ih.bind fun _ => silent_pure _

/-! ## Actions that call -/

/-- The action never ends before a call. -/
def Calls (x : Action α) : Prop := ∀ result, ¬ x.Runs [] result

theorem calls_ask (c : Call) : (ask c).Calls := by
  intro result h
  obtain ⟨reply, ht, -⟩ := runs_ask.1 h
  cases ht

theorem calls_perform (scope : Scope) (o : Operation) : (perform scope o).Calls := calls_ask _

/-- What goes on after a call has called. -/
theorem Calls.bind (h : x.Calls) (f : α → Action β) : (x >>= f).Calls := by
  intro result hruns
  rcases runs_bind.1 hruns with ⟨e, hx, -⟩ | ⟨t, u, a, ht, hx, -⟩
  · exact h _ hx
  · rw [(List.nil_eq_append_iff.1 ht).1] at hx
    exact h _ hx

/-- A silent part leaves the call to what goes on. -/
theorem Silent.calls_bind (hx : x.Silent) (hf : ∀ a, (f a).Calls) : (x >>= f).Calls := by
  intro result hruns
  obtain ⟨e, hx', -⟩ | ⟨t, u, a, ht, -, hu⟩ := runs_bind.1 hruns
  · obtain ⟨-, a, ha⟩ := hx _ _ hx'
    cases ha
  · rw [(List.nil_eq_append_iff.1 ht).2] at hu
    exact hf a _ hu

/-- A run of an action whose value is mapped. -/
theorem runs_map {g : α → β} {t : List Exchange} {result : Except ApiError β} :
    (g <$> x).Runs t result ↔ ∃ answer, x.Runs t answer ∧ result = answer.map g := by
  unfold Runs
  rw [ExceptT.run_map, map_eq_pure_bind]
  simp only [Program.runs_bind, Program.pure_eq, Program.runs_done]
  constructor
  · rintro ⟨t, u, answer, rfl, ht, rfl, rfl⟩
    exact ⟨answer, by rwa [List.append_nil], rfl⟩
  · rintro ⟨answer, ht, rfl⟩
    exact ⟨t, [], answer, (List.append_nil t).symm, ht, rfl, rfl⟩

theorem Calls.map (h : x.Calls) (g : α → β) : (g <$> x).Calls := by
  intro result hruns
  obtain ⟨answer, hx, -⟩ := runs_map.1 hruns
  exact h _ hx

theorem Calls.ne_nil (h : x.Calls) {t : List Exchange} {result : Except ApiError α}
    (hruns : x.Runs t result) : t ≠ [] := by
  rintro rfl
  exact h _ hruns

theorem Always.map {P : Call → Prop} (h : x.Always P) (g : α → β) : (g <$> x).Always P := by
  intro t result hruns
  obtain ⟨answer, hx, -⟩ := runs_map.1 hruns
  exact h _ _ hx

theorem calls_inTransaction (work : Action α) : (inTransaction work).Calls :=
  (calls_ask _).bind _

end Action

/-! ## The engine -/

namespace Engine

open Action

variable {r : Registry} {schema : Schema} {id : Json} {payload : Payload}

theorem calls_findOne {scope : Scope} {plan : Plan} : (findOne scope schema id plan).Calls :=
  (calls_perform _ _).bind _

theorem calls_findAll {scope : Scope} {plan : Plan} : (findAll scope schema plan).Calls :=
  (calls_perform _ _).bind _

theorem calls_destroy {scope : Scope} : (destroy scope schema id).Calls :=
  (calls_perform _ _).bind _

section

variable {P : Call → Prop} {scope : Scope} {plan : Plan}

theorem always_findAll (hfind : P (.perform scope (.find schema plan)))
    (hcount : P (.perform scope (.count schema plan.filter))) :
    (findAll scope schema plan).Always P :=
  (always_perform hfind).bind fun _ _ => (always_perform hcount).bind fun _ _ => always_pure _

theorem always_findOne (h : P (.perform scope (.find schema plan))) :
    (findOne scope schema id plan).Always P := by
  refine (always_perform h).bind fun rows _ => ?_
  cases rows with
  | nil => exact always_throw _
  | cons row rows => exact always_pure _

theorem always_destroy (h : P (.perform scope (.destroy schema (.idIs schema id)))) :
    (destroy scope schema id).Always P :=
  (always_perform h).bind fun _ _ => always_guard fun _ => always_pure _

end

/-- Identifiers are drawn without a call and without fail. -/
theorem silent_fillId (schema : Schema) (row : Object) : (fillId schema row).Silent := by
  unfold fillId
  split
  · refine Silent.bind (fun t result h => ?_) fun id => silent_pure _
    obtain ⟨id, hid, rfl⟩ := runs_lift.1 h
    exact ⟨Program.runs_drawn.1 hid, id, rfl⟩
  · exact silent_pure row

theorem silent_assignId (schema : Schema) (given : Option Json) (row : Object) :
    (assignId schema given row).Silent :=
  silent_fillId _ _

/-- **A create calls the store** unless its payload has no parts. -/
theorem runs_create_nil {t : List Exchange} {result : Except ApiError Record}
    (h : (create r schema payload).Runs t result) :
    t = [] ↔ ∃ e, parts r schema payload = .error e := by
  unfold create at h
  rw [runs_liftM_bind] at h
  cases hp : parts r schema payload with
  | error e =>
    rw [hp] at h
    exact iff_of_true h.1 ⟨e, rfl⟩
  | ok p =>
    rw [hp] at h
    refine iff_of_false ?_ nofun
    rintro rfl
    dsimp only at h
    split at h
    · exact calls_inTransaction _ _ h
    · exact (silent_assignId _ _ _).calls_bind (fun _ => (calls_perform _ _).bind _) _ h

/-- **An update calls the store** unless its payload is for another row or has no parts. -/
theorem runs_update_nil {t : List Exchange} {result : Except ApiError Record}
    (h : (update r schema id payload).Runs t result) :
    t = [] ↔ (∃ e, checkPayloadId schema id payload = .error e) ∨
      ∃ e, parts r schema payload = .error e := by
  unfold update at h
  rw [runs_liftM_bind] at h
  cases hc : checkPayloadId schema id payload with
  | error e =>
    rw [hc] at h
    exact iff_of_true h.1 (.inl ⟨e, rfl⟩)
  | ok =>
    rw [hc] at h
    replace h := runs_liftM_bind.1 h
    cases hp : parts r schema payload with
    | error e =>
      rw [hp] at h
      exact iff_of_true h.1 (.inr ⟨e, rfl⟩)
    | ok p =>
      rw [hp] at h
      refine iff_of_false ?_ (by simp)
      rintro rfl
      dsimp only at h
      split at h
      · exact calls_inTransaction _ _ h
      · exact (calls_perform _ _).bind _ _ h

end Engine

end ResourceApi
