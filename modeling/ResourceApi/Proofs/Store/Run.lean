import ResourceApi.Engine.Action
import ResourceApi.Store.Script

/-!
# Runs of a program

A program says nothing about the store that it calls. `Program.Runs p t a` says that `p` can end
with `a` after the exchanges `t`: at every call the store may answer as it likes, with a value or
with a failure, and every drawn identifier may be any text. What holds of all runs holds on every
store.

**Composition.** A run of `p >>= f` is a run of `p` followed by a run of what `f` makes of its
result (`Program.runs_bind`); for actions, an error ends the run (`Action.runs_bind`).

**Calls.** `Action.Always P x`: in every run of `x`, all calls have the property `P`. It is kept by
composition, where the second action goes on with a value that the first one yields. With
`Action.Within s x`, all calls of `x` are operations in scope `s`, so `x` neither begins nor ends a
transaction.

**Scripts.** Every scripted store takes a program through one of its runs and logs its calls
(`Script.exists_runs`).
-/

namespace ResourceApi

/-- A call and what the store answers to it. -/
structure Exchange where
  call : Call
  reply : call.Reply

/-- The exchange is an operation in a scope. -/
def Exchange.IsIn (e : Exchange) (scope : Scope) : Prop := ∃ o, e.call = .perform scope o

/-- The exchange begins or ends a transaction. -/
def Exchange.IsControl (e : Exchange) : Prop :=
  e.call = .begin ∨ e.call = .commit ∨ e.call = .rollback

theorem Exchange.IsIn.not_isControl {e : Exchange} {scope : Scope} (h : e.IsIn scope) :
    ¬ e.IsControl := by
  obtain ⟨o, ho⟩ := h
  simp [IsControl, ho]

namespace Program

variable {α β : Type}

/-- The program can end with the result after the exchanges. -/
inductive Runs : Program α → List Exchange → α → Prop
  | done (a : α) : Runs (done a) [] a
  | draw {next : String → Program α} {t : List Exchange} {a : α} (id : String) :
      Runs (next id) t a → Runs (draw next) t a
  | call {c : Call} {next : c.Reply → Program α} {t : List Exchange} {a : α} (reply : c.Reply) :
      Runs (next reply) t a → Runs (call c next) (⟨c, reply⟩ :: t) a

@[simp] theorem runs_done {a b : α} {t : List Exchange} :
    Runs (done a) t b ↔ t = [] ∧ b = a := by
  constructor
  · intro h
    cases h
    exact ⟨rfl, rfl⟩
  · rintro ⟨rfl, rfl⟩
    exact .done b

@[simp] theorem runs_drawn {id : String} {t : List Exchange} : Runs drawn t id ↔ t = [] := by
  constructor
  · intro h
    cases h with
    | draw _ h => exact (runs_done.1 h).1
  · rintro rfl
    exact .draw id (.done id)

@[simp] theorem runs_ask {c : Call} {t : List Exchange} {reply : c.Reply} :
    Runs (ask c) t reply ↔ t = [⟨c, reply⟩] := by
  constructor
  · intro h
    cases h with
    | call _ h =>
      obtain ⟨rfl, rfl⟩ := runs_done.1 h
      rfl
  · rintro rfl
    exact .call reply (.done reply)

theorem Runs.bind {p : Program α} {f : α → Program β} {t u : List Exchange} {a : α} {b : β}
    (hp : Runs p t a) (hf : Runs (f a) u b) : Runs (p >>= f) (t ++ u) b := by
  induction hp with
  | done a => exact hf
  | draw id _ ih => exact .draw id (ih hf)
  | call reply _ ih => exact .call reply (ih hf)

/-- **Runs compose.** A run of `p >>= f` is a run of `p`, then one of `f`. -/
theorem runs_bind {p : Program α} {f : α → Program β} {v : List Exchange} {b : β} :
    Runs (p >>= f) v b ↔ ∃ t u a, v = t ++ u ∧ Runs p t a ∧ Runs (f a) u b := by
  constructor
  · intro h
    induction p generalizing v with
    | done a => exact ⟨[], v, a, rfl, .done a, h⟩
    | draw next ih =>
      cases h with
      | draw id h =>
        obtain ⟨t, u, a, rfl, hp, hf⟩ := ih id h
        exact ⟨t, u, a, rfl, .draw id hp, hf⟩
    | call c next ih =>
      cases h with
      | call reply h =>
        obtain ⟨t, u, a, rfl, hp, hf⟩ := ih reply h
        exact ⟨⟨c, reply⟩ :: t, u, a, rfl, .call reply hp, hf⟩
  · rintro ⟨t, u, a, rfl, hp, hf⟩
    exact hp.bind hf

end Program

namespace Action

variable {α β : Type}

/-- The action can end with the result after the exchanges. -/
def Runs (x : Action α) (t : List Exchange) (result : Except ApiError α) : Prop :=
  Program.Runs x.run t result

@[simp] theorem runs_pure {a : α} {t : List Exchange} {result : Except ApiError α} :
    Runs (pure a) t result ↔ t = [] ∧ result = .ok a :=
  Program.runs_done

@[simp] theorem runs_throw {e : ApiError} {t : List Exchange} {result : Except ApiError α} :
    Runs (throw e) t result ↔ t = [] ∧ result = .error e :=
  Program.runs_done

@[simp] theorem runs_liftM {x : Except ApiError α} {t : List Exchange}
    {result : Except ApiError α} : Runs (liftM x) t result ↔ t = [] ∧ result = x :=
  Program.runs_done

/-- **Runs of actions compose.** An error ends the run; otherwise it goes on with the value. -/
theorem runs_bind {x : Action α} {f : α → Action β} {v : List Exchange}
    {result : Except ApiError β} :
    Runs (x >>= f) v result ↔
      (∃ e, Runs x v (.error e) ∧ result = .error e) ∨
        ∃ t u a, v = t ++ u ∧ Runs x t (.ok a) ∧ Runs (f a) u result := by
  unfold Runs
  rw [ExceptT.run_bind, Program.runs_bind]
  constructor
  · rintro ⟨t, u, r, rfl, hx, hf⟩
    cases r with
    | error e =>
      obtain ⟨rfl, rfl⟩ := Program.runs_done.1 hf
      exact .inl ⟨e, by simpa using hx, rfl⟩
    | ok a => exact .inr ⟨t, u, a, rfl, hx, hf⟩
  · rintro (⟨e, hx, rfl⟩ | ⟨t, u, a, rfl, hx, hf⟩)
    · exact ⟨v, [], .error e, by simp, hx, .done _⟩
    · exact ⟨t, u, .ok a, rfl, hx, hf⟩

theorem runs_lift {p : Program α} {t : List Exchange} {result : Except ApiError α} :
    Runs (ExceptT.lift p) t result ↔ ∃ a, Program.Runs p t a ∧ result = .ok a := by
  show Program.Runs (Except.ok <$> p) t result ↔ _
  rw [map_eq_pure_bind, Program.runs_bind]
  constructor
  · rintro ⟨t, u, a, rfl, hp, hf⟩
    obtain ⟨rfl, rfl⟩ := Program.runs_done.1 hf
    exact ⟨a, by simpa using hp, rfl⟩
  · rintro ⟨a, hp, rfl⟩
    exact ⟨t, [], a, by simp, hp, .done _⟩

@[simp] theorem runs_ask {c : Call} {t : List Exchange} {result : Except ApiError c.Answer} :
    Runs (ask c) t result ↔
      ∃ reply, t = [⟨c, reply⟩] ∧ result = reply.mapError StoreError.toApiError := by
  show Program.Runs (Program.ask c >>= fun reply => pure _) t result ↔ _
  rw [Program.runs_bind]
  constructor
  · rintro ⟨t, u, reply, rfl, hp, hf⟩
    obtain ⟨rfl, rfl⟩ := Program.runs_done.1 hf
    obtain rfl := Program.runs_ask.1 hp
    exact ⟨reply, rfl, rfl⟩
  · rintro ⟨reply, rfl, rfl⟩
    exact ⟨[⟨c, reply⟩], [], reply, rfl, Program.runs_ask.2 rfl, .done _⟩

@[simp] theorem runs_perform {scope : Scope} {o : Operation} {t : List Exchange}
    {result : Except ApiError o.Answer} :
    Runs (perform scope o) t result ↔
      ∃ reply : (Call.perform scope o).Reply, t = [⟨.perform scope o, reply⟩] ∧
        result = reply.mapError StoreError.toApiError :=
  runs_ask

/-- A run that starts with a check. -/
theorem runs_liftM_bind {x : Except ApiError α} {f : α → Action β} {t : List Exchange}
    {result : Except ApiError β} :
    Runs (liftM x >>= f) t result ↔
      match x with
      | .error e => t = [] ∧ result = .error e
      | .ok a => Runs (f a) t result := by
  rw [runs_bind]
  cases x with
  | error e =>
    constructor
    · rintro (⟨e', hx, rfl⟩ | ⟨t, u, a, rfl, hx, -⟩)
      · obtain ⟨rfl, he⟩ := runs_liftM.1 hx
        cases he
        exact ⟨rfl, rfl⟩
      · cases (runs_liftM.1 hx).2
    · rintro ⟨rfl, rfl⟩
      exact .inl ⟨e, runs_liftM.2 ⟨rfl, rfl⟩, rfl⟩
  | ok a =>
    constructor
    · rintro (⟨e', hx, -⟩ | ⟨t, u, b, rfl, hx, hf⟩)
      · cases (runs_liftM.1 hx).2
      · obtain ⟨rfl, hb⟩ := runs_liftM.1 hx
        cases hb
        exact hf
    · intro hf
      exact .inr ⟨[], t, a, rfl, runs_liftM.2 ⟨rfl, rfl⟩, hf⟩

/-- A run that starts with an operation. -/
theorem runs_perform_bind {scope : Scope} {o : Operation} {f : o.Answer → Action β}
    {t : List Exchange} {result : Except ApiError β} :
    Runs (perform scope o >>= f) t result ↔
      ∃ (reply : Except StoreError o.Answer) (u : List Exchange),
        t = ⟨.perform scope o, reply⟩ :: u ∧
        match reply with
        | .error e => u = [] ∧ result = .error e.toApiError
        | .ok a => Runs (f a) u result := by
  rw [runs_bind]
  constructor
  · rintro (⟨e, hx, rfl⟩ | ⟨_, u, a, rfl, hx, hf⟩)
    · obtain ⟨reply | a, rfl, he⟩ := runs_perform.1 hx
      · cases he
        exact ⟨.error reply, [], rfl, rfl, rfl⟩
      · cases he
    · obtain ⟨reply | b, rfl, ha⟩ := runs_perform.1 hx
      · cases ha
      · cases ha
        exact ⟨.ok a, u, rfl, hf⟩
  · rintro ⟨reply | a, u, rfl, h⟩
    · obtain ⟨rfl, rfl⟩ := h
      exact .inl ⟨_, runs_perform.2 ⟨.error reply, rfl, rfl⟩, rfl⟩
    · exact .inr ⟨_, u, a, rfl, runs_perform.2 ⟨.ok a, rfl, rfl⟩, h⟩

/-! ## Values of actions -/

/-- The action can succeed with the value. -/
def Yields (x : Action α) (a : α) : Prop := ∃ t, Runs x t (.ok a)

section Yields

theorem yields_pure {a b : α} : Yields (pure a) b ↔ b = a := by
  constructor
  · rintro ⟨t, h⟩
    exact Except.ok.inj (runs_pure.1 h).2
  · rintro rfl
    exact ⟨[], runs_pure.2 ⟨rfl, rfl⟩⟩

theorem yields_liftM {x : Except ApiError α} {a : α} : Yields (liftM x) a ↔ x = .ok a := by
  constructor
  · rintro ⟨t, h⟩
    exact (runs_liftM.1 h).2.symm
  · rintro rfl
    exact ⟨[], runs_liftM.2 ⟨rfl, rfl⟩⟩

theorem yields_bind {x : Action α} {f : α → Action β} {b : β} :
    Yields (x >>= f) b ↔ ∃ a, Yields x a ∧ Yields (f a) b := by
  constructor
  · rintro ⟨v, h⟩
    rcases runs_bind.1 h with ⟨_, -, he⟩ | ⟨t, u, a, rfl, hx, hf⟩
    · cases he
    · exact ⟨a, ⟨t, hx⟩, u, hf⟩
  · rintro ⟨a, ⟨t, hx⟩, u, hf⟩
    exact ⟨t ++ u, runs_bind.2 (.inr ⟨t, u, a, rfl, hx, hf⟩)⟩

/-- Every value of a list of actions is a value of one of them. -/
theorem exists_of_yields_mapM {f : α → Action β} {xs : List α} {ys : List β}
    (h : Yields (xs.mapM f) ys) : ∀ y ∈ ys, ∃ x ∈ xs, Yields (f x) y := by
  induction xs generalizing ys with
  | nil =>
    rw [List.mapM_nil] at h
    simp [yields_pure.1 h]
  | cons x xs ih =>
    rw [List.mapM_cons] at h
    obtain ⟨y, hy, h⟩ := yields_bind.1 h
    obtain ⟨rest, hrest, h⟩ := yields_bind.1 h
    obtain rfl := yields_pure.1 h
    refine List.forall_mem_cons.2 ⟨⟨x, List.mem_cons_self, hy⟩, fun z hz => ?_⟩
    obtain ⟨x', hm, hx'⟩ := ih hrest z hz
    exact ⟨x', List.mem_cons_of_mem _ hm, hx'⟩

end Yields

/-! ## Calls of actions -/

/-- In every run of the action, every call has the property. -/
def Always (P : Call → Prop) (x : Action α) : Prop :=
  ∀ t result, Runs x t result → ∀ e ∈ t, P e.call

section Always

variable {P : Call → Prop}

theorem always_pure (a : α) : Always P (pure a) := by
  rintro t result h e he
  simp [(runs_pure.1 h).1] at he

theorem always_throw (e : ApiError) : Always P (throw e : Action α) := by
  rintro t result h e he
  simp [(runs_throw.1 h).1] at he

theorem always_liftM (x : Except ApiError α) : Always P (liftM x : Action α) := by
  rintro t result h e he
  simp [(runs_liftM.1 h).1] at he

theorem always_drawn : Always P drawn := by
  rintro t result h e he
  obtain ⟨id, hid, -⟩ := runs_lift.1 h
  simp [Program.runs_drawn.1 hid] at he

theorem always_perform {scope : Scope} {o : Operation} (h : P (.perform scope o)) :
    Always P (perform scope o) := by
  rintro t result hruns e he
  obtain ⟨reply, rfl, -⟩ := runs_perform.1 hruns
  rwa [List.mem_singleton.1 he]

/-- An action goes on with the values of the one before. -/
theorem Always.bind {x : Action α} {f : α → Action β} (hx : Always P x)
    (hf : ∀ a, x.Yields a → Always P (f a)) : Always P (x >>= f) := by
  rintro v result h e he
  rcases runs_bind.1 h with ⟨_, h, -⟩ | ⟨t, u, a, rfl, ht, hu⟩
  · exact hx _ _ h e he
  · rcases List.mem_append.1 he with he | he
    · exact hx _ _ ht e he
    · exact hf a ⟨t, ht⟩ _ _ hu e he

theorem always_mapM {f : α → Action β} (hf : ∀ a, Always P (f a)) (xs : List α) :
    Always P (xs.mapM f) := by
  induction xs with
  | nil => simpa using always_pure []
  | cons x xs ih =>
    rw [List.mapM_cons]
    exact (hf x).bind fun _ _ => ih.bind fun _ _ => always_pure _

/-- A check keeps the property if the action that goes on does. -/
theorem always_guard {c : Prop} [Decidable c] {e : ApiError} {rest : Unit → Action α}
    (h : ∀ u, Always P (rest u)) :
    Always P (if c then (throw e : Action Unit) >>= rest else rest ()) := by
  split
  · exact (always_throw e).bind fun u _ => h u
  · exact h ()

end Always

/-- Every call of the action is an operation in the scope. -/
def Within (scope : Scope) (x : Action α) : Prop :=
  ∀ t result, Runs x t result → ∀ e ∈ t, e.IsIn scope

/-- The operations in a scope are the calls that keep to it. -/
theorem Always.within {scope : Scope} {x : Action α} (h : Always (∃ o, · = .perform scope o) x) :
    Within scope x := h

end Action

/-! ## Scripts -/

namespace Script

variable {α : Type}

theorem log_keyed (schema : Schema) (row : Object) (s : Script) :
    (keyed schema row s).2.log = s.log := by
  unfold keyed
  split <;> rfl

theorem log_mapM_keyed (schema : Schema) (rows : List Object) (s : Script) :
    ((rows.mapM (keyed schema) : StateM Script (List Object)) s).2.log = s.log := by
  induction rows generalizing s with
  | nil => rfl
  | cons row rows ih =>
    rw [List.mapM_cons]
    exact (ih (keyed schema row s).2).trans (log_keyed schema row s)

theorem log_defaultAnswer (o : Operation) (s : Script) : (defaultAnswer o s).2.log = s.log := by
  cases o with
  | create schema row => exact log_keyed schema row s
  | bulkCreate schema rows => exact log_mapM_keyed schema rows s
  | _ => rfl

theorem log_nextReply (s : Script) : (nextReply s).2.log = s.log := by
  rcases s with ⟨replies⟩
  cases replies <;> rfl

theorem log_perform (o : Operation) (s : Script) : (perform o s).2.log = s.log := by
  rw [← log_nextReply s]
  show (StateT.bind nextReply _ s : Id (Except StoreError o.Answer × Script)).2.log = _
  unfold StateT.bind
  rcases nextReply s with ⟨reply, s'⟩
  cases reply with
  | byDefault => exact log_defaultAnswer o s'
  | failure e => rfl
  | given rows row count ids => rfl

theorem log_control (s : Script) : (control s).2.log = s.log := by
  rw [← log_nextReply s]
  show (StateT.bind nextReply _ s : Id (Except StoreError Unit × Script)).2.log = _
  unfold StateT.bind
  rcases nextReply s with ⟨reply, s'⟩
  cases reply <;> rfl

theorem log_reply (c : Call) (s : Script) : (reply c s).2.log = s.log := by
  cases c with
  | perform scope o => exact log_perform o s
  | begin =>
    rw [← log_control s]
    show (StateT.bind control _ s : Id (Except StoreError Unit × Script)).2.log = _
    unfold StateT.bind
    rcases control s with ⟨begun, s'⟩
    cases begun <;> rfl
  | commit => exact log_control _
  | rollback => exact log_control _

theorem log_answer (c : Call) (s : Script) : (answer c s).2.log = s.log ++ [.called c] :=
  log_reply c _

/-- **Scripts run programs.** The result of a program on a scripted store is one that it has after
the logged calls. -/
theorem exists_runs (supply : Nat → String) (p : Program α) (s : Script) :
    ∃ t, Program.Runs p t (run supply p s).1 ∧
      (run supply p s).2.log = s.log ++ t.map (.called ·.call) := by
  induction p generalizing s with
  | done a => exact ⟨[], .done a, (List.append_nil s.log).symm⟩
  | draw next ih =>
    obtain ⟨t, ht, hl⟩ := ih (supply s.drawn) { s with drawn := s.drawn + 1 }
    exact ⟨t, .draw _ ht, hl⟩
  | call c next ih =>
    obtain ⟨t, ht, hl⟩ := ih (answer c s).1 (answer c s).2
    refine ⟨⟨c, (answer c s).1⟩ :: t, .call _ ht, ?_⟩
    show (run supply (next (answer c s).1) (answer c s).2).2.log = _
    rw [hl, log_answer, List.append_assoc]
    rfl

end Script

end ResourceApi
