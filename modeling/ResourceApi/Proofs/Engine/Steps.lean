import ResourceApi.Proofs.Engine.Linkage
import ResourceApi.Proofs.Engine.Refusals

/-!
# Steps of a write

The operations of a write with linkage come in a fixed order, which depends on the payload and on the
keys of the rows that the write creates (`CreateSteps`, `UpdateSteps`). A run *follows* a list of steps
(`Follows`): its exchanges are these steps, one after the other, up to the first one whose reply ends
the write (`Ends`).

**Theorem (`Engine.steps_of_writes`).** Inside its transaction, every create and every update with
linkage follows its steps: rows to link are looked up before they are used, the row itself is written
before its links, and rows that the linkage describes are created before they are linked.

The proof goes through the engine from the last part of a write to the first: `Stepped S x` says that
every run of `x` follows steps in `S`, and each part of the engine puts its own steps in front of those
of what goes on after it.
-/

namespace ResourceApi

/-! ## Steps -/

/-- One operation of a write, with the keys that its reply gives. -/
inductive Step where
  /-- Looks up the row to change. -/
  | address (schema : Schema) (id : Json)
  /-- Looks up rows to link. -/
  | lookUp (target : Schema) (ids : List Json)
  /-- Creates the row, which is answered with the key. -/
  | create (schema : Schema) (row : Object) (key : Json)
  /-- Changes the row. -/
  | change (schema : Schema) (row : Object) (id : Json)
  /-- Creates rows to link, which are answered with the keys. -/
  | bulkCreate (target : Schema) (rows : List Object) (keys : List Json)
  | addLinks (a : Association) (parent : Json) (ids : List Json)
  | setLinks (a : Association) (parent : Json) (ids : List Json)
  /-- Reads the row again. -/
  | reread (schema : Schema) (plan : Plan)

namespace Step

/-- The operation of a step. -/
def operation : Step → Operation
  | address schema id => .existingIds schema [id]
  | lookUp target ids => .existingIds target ids
  | create schema row _ => .create schema row
  | change schema row id => .update schema row (.idIs schema id)
  | bulkCreate target rows _ => .bulkCreate target rows
  | addLinks a parent ids => .addLinks a parent ids
  | setLinks a parent ids => .setLinks a parent ids
  | reread schema plan => .find schema plan

/-- The call of a step. -/
def call (scope : Scope) (s : Step) : Call := .perform scope s.operation

/-- The exchange is the step, and its reply lets the write go on. -/
inductive Passes (scope : Scope) : Step → Exchange → Prop
  | address {schema : Schema} {id : Json} {found : List Json} : found ≠ [] →
      Passes scope (.address schema id) ⟨.perform scope (.existingIds schema [id]), .ok found⟩
  | lookUp {target : Schema} {ids found : List Json} : (∀ id ∈ ids, found.any id.agrees) →
      Passes scope (.lookUp target ids) ⟨.perform scope (.existingIds target ids), .ok found⟩
  | create {schema : Schema} {row created : Object} {key : Json} :
      created.get? schema.idField = some key →
      Passes scope (.create schema row key) ⟨.perform scope (.create schema row), .ok created⟩
  | change {schema : Schema} {row : Object} {id : Json} (changed : Nat) :
      Passes scope (.change schema row id)
        ⟨.perform scope (.update schema row (.idIs schema id)), .ok changed⟩
  | bulkCreate {target : Schema} {rows created : List Object} {keys : List Json} :
      created.map (·.get? target.idField) = keys.map some →
      Passes scope (.bulkCreate target rows keys)
        ⟨.perform scope (.bulkCreate target rows), .ok created⟩
  | addLinks {a : Association} {parent : Json} {ids : List Json} :
      Passes scope (.addLinks a parent ids) ⟨.perform scope (.addLinks a parent ids), .ok ()⟩
  | setLinks {a : Association} {parent : Json} {ids : List Json} :
      Passes scope (.setLinks a parent ids) ⟨.perform scope (.setLinks a parent ids), .ok ()⟩
  | reread {schema : Schema} {plan : Plan} (rows : List Object) :
      Passes scope (.reread schema plan) ⟨.perform scope (.find schema plan), .ok rows⟩

/-- The exchange is the step, and its reply ends the write: a failure, nothing where the row to change
is looked up, a missing row to link, or a created row without its key. -/
inductive Ends (scope : Scope) : Step → Exchange → Prop
  | failed (s : Step) (e : StoreError) : Ends scope s ⟨.perform scope s.operation, .error e⟩
  | absent {schema : Schema} {id : Json} :
      Ends scope (.address schema id) ⟨.perform scope (.existingIds schema [id]), .ok []⟩
  | missing {target : Schema} {ids found : List Json} {id : Json} : id ∈ ids →
      ¬ found.any id.agrees →
      Ends scope (.lookUp target ids) ⟨.perform scope (.existingIds target ids), .ok found⟩
  | unkeyed {schema : Schema} {row created : Object} {key : Json} :
      created.get? schema.idField = none →
      Ends scope (.create schema row key) ⟨.perform scope (.create schema row), .ok created⟩
  | unkeyedRow {target : Schema} {rows created : List Object} {keys : List Json} {row : Object} :
      row ∈ created → row.get? target.idField = none →
      Ends scope (.bulkCreate target rows keys)
        ⟨.perform scope (.bulkCreate target rows), .ok created⟩

variable {scope : Scope} {s : Step} {e : Exchange}

theorem Passes.call (h : s.Passes scope e) : e.call = s.call scope := by
  cases h <;> rfl

theorem Ends.call (h : s.Ends scope e) : e.call = s.call scope := by
  cases h <;> rfl

/-- No reply both ends the write and lets it go on. -/
theorem Passes.not_ends (h : s.Passes scope e) : ¬ s.Ends scope e := by
  intro hends
  cases h with
  | address hfound =>
    cases hends
    exact hfound rfl
  | lookUp hfound =>
    cases hends with
    | missing hid hmissing => exact hmissing (hfound _ hid)
  | create hkey =>
    cases hends with
    | unkeyed hnone => exact nomatch hkey.symm.trans hnone
  | bulkCreate hkeys =>
    cases hends with
    | unkeyedRow hrow hnone =>
      obtain ⟨key, -, hkey⟩ := List.mem_map.1 (hkeys ▸ List.mem_map.2 ⟨_, hrow, hnone⟩)
      cases hkey
  | _ => cases hends

end Step

/-- The exchanges are the steps, one after the other. They stop at the first one that ends the write. -/
inductive Follows (scope : Scope) : List Step → List Exchange → Prop
  | nil : Follows scope [] []
  | passes {s : Step} {e : Exchange} {steps : List Step} {t : List Exchange} :
      s.Passes scope e → Follows scope steps t → Follows scope (s :: steps) (e :: t)
  | ends {s : Step} {e : Exchange} (steps : List Step) : s.Ends scope e →
      Follows scope (s :: steps) [e]

/-- **The calls are a prefix of the steps.** -/
theorem Follows.prefix {scope : Scope} {steps : List Step} {t : List Exchange}
    (h : Follows scope steps t) : t.map (·.call) <+: steps.map (·.call scope) := by
  induction h with
  | nil => exact List.nil_prefix
  | passes hs _ ih => exact List.cons_prefix_cons.2 ⟨hs.call, ih⟩
  | ends steps hs => exact List.cons_prefix_cons.2 ⟨hs.call, List.nil_prefix⟩

/-! ## Steps of a payload -/

/-- The rows that a link describes. -/
def Link.rows (link : Link) : List Object :=
  link.targets.filterMap fun
    | .byId _ => none
    | .create row => some row

namespace Engine

open ResourceApi.Action

/-- Looks up rows to link, if there are any. -/
def lookUps (target : Schema) (ids : List Json) : List Step :=
  if ids = [] then [] else [.lookUp target ids]

/-- Creates rows to link, if there are any. -/
def bulkCreates (target : Schema) (rows : List Object) (keys : List Json) : List Step :=
  if rows = [] then [] else [.bulkCreate target rows keys]

/-- Each key of a row is looked up. -/
def keySteps (keys : List OwnKey) : List Step :=
  keys.flatMap fun key => lookUps key.association.target key.id.toList

/-- The attributes of a row with the keys that are put into it. -/
def keyed (keys : List OwnKey) (row : Object) : Object :=
  keys.foldl (fun row key => row.insert key.field (key.id.getD .null)) row

/-- For each link, the rows of its identifiers are looked up, the rows that it describes are created,
and then all of them are linked, those that exist first. -/
inductive LinkSteps (write : Association → List Json → Step) :
    List (Association × Link) → List Step → Prop
  | nil : LinkSteps write [] []
  | cons {a : Association} {link : Link} {rows : List Object} {keys : List Json}
      {rest : List (Association × Link)} {steps : List Step} :
      (link.rows.mapM (fillId a.target)).Yields rows → (rows = [] → keys = []) →
      LinkSteps write rest steps →
      LinkSteps write ((a, link) :: rest) (lookUps a.target link.ids ++
        bulkCreates a.target rows keys ++ write a (link.ids ++ keys) :: steps)

/-- The steps of a create: the keys of the row are looked up, the row is created, and its links are
added to the key that the row was given. -/
def CreateSteps (r : Registry) (schema : Schema) (payload : Payload) (steps : List Step) : Prop :=
  ∃ keys links row key linked, Parts.Sorts r schema payload.relationships keys links ∧
    (assignId schema payload.id (keyed keys payload.attributes)).Yields row ∧
    LinkSteps (.addLinks · key) links linked ∧
    steps = keySteps keys ++ .create schema row key :: linked

/-- The steps of an update: the row and its keys are looked up, the row is changed if there is anything
to change, its links are set, and it is read again. -/
def UpdateSteps (r : Registry) (schema : Schema) (id : Json) (payload : Payload)
    (steps : List Step) : Prop :=
  ∃ keys links linked, Parts.Sorts r schema payload.relationships keys links ∧
    LinkSteps (.setLinks · id) links linked ∧
    steps = .address schema id :: (keySteps keys ++
      (if payload.attributes = [] ∧ keys = [] then []
        else [.change schema (keyed keys payload.attributes) id]) ++
      linked ++ [.reread schema (reloadPlan r schema id)])

/-! ## Actions that follow steps -/

end Engine

theorem Operation.nonempty_answer (o : Operation) : Nonempty o.Answer := by
  cases o <;> exact ⟨default⟩

/-- Every program has a run, on a store that always fails. -/
theorem Program.exists_run {α : Type} (p : Program α) : ∃ t a, p.Runs t a := by
  induction p with
  | done a => exact ⟨[], a, .done a⟩
  | draw next ih =>
    obtain ⟨t, a, h⟩ := ih ""
    exact ⟨t, a, .draw "" h⟩
  | call c next ih =>
    obtain ⟨t, a, h⟩ := ih (.error (.database ""))
    exact ⟨_, a, .call _ h⟩

namespace Action

variable {α β : Type} {scope : Scope} {S : List Step → Prop} {x : Action α} {f : α → Action β}

/-- Every run of the action follows steps of the kind. -/
def Stepped (scope : Scope) (S : List Step → Prop) (x : Action α) : Prop :=
  ∀ t result, x.Runs t result → ∃ steps, S steps ∧ Follows scope steps t

/-- Steps with these ones before them. -/
def Before (first : List Step) (S : List Step → Prop) (steps : List Step) : Prop :=
  ∃ rest, S rest ∧ steps = first ++ rest

theorem Stepped.exists (h : x.Stepped scope S) : ∃ steps, S steps := by
  obtain ⟨t, result, hruns⟩ := x.run.exists_run
  obtain ⟨steps, hsteps, -⟩ := h t result hruns
  exact ⟨steps, hsteps⟩

theorem Stepped.mono {T : List Step → Prop} (h : x.Stepped scope S) (hST : ∀ steps, S steps → T steps) :
    x.Stepped scope T := by
  intro t result hruns
  obtain ⟨steps, hsteps, hfollows⟩ := h t result hruns
  exact ⟨steps, hST steps hsteps, hfollows⟩

theorem before_nil (h : x.Stepped scope S) : x.Stepped scope (Before [] S) :=
  h.mono fun steps hsteps => ⟨steps, hsteps, rfl⟩

theorem runs_throw_bind {e : ApiError} {t : List Exchange} {result : Except ApiError β} :
    ((throw e : Action α) >>= f).Runs t result ↔ t = [] ∧ result = .error e :=
  Program.runs_done

/-- What ends before a call takes no steps. -/
theorem stepped_pure (a : α) : (pure a : Action α).Stepped scope (· = []) := by
  intro t result h
  obtain ⟨rfl, -⟩ := runs_pure.1 h
  exact ⟨[], rfl, .nil⟩

theorem stepped_throw_bind (e : ApiError) :
    ((throw e : Action α) >>= f).Stepped scope (· = []) := by
  intro t result h
  obtain ⟨rfl, -⟩ := runs_throw_bind.1 h
  exact ⟨[], rfl, .nil⟩

theorem Silent.stepped_bind (hx : x.Silent) (hf : ∀ a, x.Yields a → (f a).Stepped scope S) :
    (x >>= f).Stepped scope S := by
  intro t result h
  obtain ⟨e, hruns, -⟩ | ⟨t, u, a, rfl, ht, hu⟩ := runs_bind.1 h
  · obtain ⟨-, a, ha⟩ := hx _ _ hruns
    cases ha
  · obtain ⟨rfl, -⟩ := hx _ _ ht
    exact hf a ⟨[], ht⟩ u result hu

/-- An operation that passes as a step unless it fails. -/
theorem stepped_perform_bind (s : Step) {f : s.operation.Answer → Action β}
    (hpasses : ∀ a, s.Passes scope ⟨.perform scope s.operation, .ok a⟩)
    (hf : ∀ a, (f a).Stepped scope S) :
    (perform scope s.operation >>= f).Stepped scope (Before [s] S) := by
  intro t result hruns
  obtain ⟨reply, u, rfl, h⟩ := runs_perform_bind.1 hruns
  cases reply with
  | error e =>
    obtain ⟨rfl, -⟩ := h
    obtain ⟨rest, hrest⟩ := (hf s.operation.nonempty_answer.some).exists
    exact ⟨s :: rest, ⟨rest, hrest, rfl⟩, .ends rest (.failed s e)⟩
  | ok a =>
    obtain ⟨rest, hrest, hfollows⟩ := hf a u result h
    exact ⟨s :: rest, ⟨rest, hrest, rfl⟩, .passes (hpasses a) hfollows⟩

end Action

namespace Engine

open ResourceApi.Action

variable {β : Type} {scope : Scope} {S : List Step → Prop} {a : Association} {schema : Schema}

/-- **Rows to link are looked up first.** -/
theorem stepped_requireExisting_bind {f : Unit → Action β} (hf : (f ()).Stepped scope S)
    (ids : List Json) :
    (requireExisting scope a ids >>= f).Stepped scope (Before (lookUps a.target ids) S) := by
  unfold requireExisting lookUps
  cases ids with
  | nil => exact before_nil hf
  | cons id ids =>
    rw [if_neg (List.cons_ne_nil _ _)]
    intro t result hruns
    simp only [List.isEmpty_cons, Bool.false_eq_true, if_false, bind_assoc] at hruns
    obtain ⟨reply, u, rfl, h⟩ := runs_perform_bind.1 hruns
    cases reply with
    | error e =>
      obtain ⟨rfl, -⟩ := h
      obtain ⟨rest, hrest⟩ := hf.exists
      exact ⟨_, ⟨rest, hrest, rfl⟩, .ends rest (.failed (.lookUp _ _) e)⟩
    | ok found =>
      dsimp only at h
      split at h
      · rename_i missing hfind
        obtain ⟨rfl, -⟩ := runs_throw_bind.1 h
        obtain ⟨rest, hrest⟩ := hf.exists
        exact ⟨_, ⟨rest, hrest, rfl⟩, .ends rest (.missing (List.mem_of_find?_eq_some hfind)
          (by simpa using List.find?_some hfind))⟩
      · rename_i hfind
        obtain ⟨rest, hrest, hfollows⟩ := hf u result h
        refine ⟨_, ⟨rest, hrest, rfl⟩, .passes (.lookUp fun id hid => ?_) hfollows⟩
        simpa using List.find?_eq_none.1 hfind id hid

/-- The keys of created rows are read without a call; the first row without one is an error. -/
theorem runs_primaryKeys {target : Schema} {created : List Object} {t : List Exchange}
    {result : Except ApiError (List Json)}
    (h : (created.mapM fun row =>
      (liftM (primaryKey target row) : Action Json)).Runs t result) :
    t = [] ∧ ((∃ keys, result = .ok keys ∧
        created.map (·.get? target.idField) = keys.map some) ∨
      ∃ e row, result = .error e ∧ row ∈ created ∧ row.get? target.idField = none) := by
  induction created generalizing t result with
  | nil =>
    rw [List.mapM_nil] at h
    obtain ⟨rfl, rfl⟩ := runs_pure.1 h
    exact ⟨rfl, .inl ⟨[], rfl, rfl⟩⟩
  | cons row rest ih =>
    rw [List.mapM_cons, runs_liftM_bind] at h
    unfold primaryKey at h
    cases hkey : row.get? target.idField with
    | none =>
      rw [hkey] at h
      exact ⟨h.1, .inr ⟨_, row, h.2, List.mem_cons_self, hkey⟩⟩
    | some key =>
      rw [hkey] at h
      obtain ⟨e, hrest, rfl⟩ | ⟨t, u, keys, rfl, hrest, hpure⟩ := runs_bind.1 h
      · obtain ⟨rfl, ⟨_, he, -⟩ | ⟨e', row', he, hrow, hnone⟩⟩ := ih hrest
        · cases he
        · exact ⟨rfl, .inr ⟨_, row', rfl, List.mem_cons_of_mem _ hrow, hnone⟩⟩
      · obtain ⟨rfl, rfl⟩ := runs_pure.1 hpure
        obtain ⟨rfl, ⟨_, hok, hkeys⟩ | ⟨_, _, he, -⟩⟩ := ih hrest
        · cases hok
          exact ⟨rfl, .inl ⟨key :: keys, rfl, by simp [hkey, hkeys]⟩⟩
        · cases he

/-- **Rows of the linkage are created next**, and linked behind those that exist. -/
theorem stepped_bulkCreate_bind {target : Schema} {rows : List Object} {ids : List Json}
    {S : List Json → List Step → Prop} {f : List Json → Action β}
    (hf : ∀ ids, (f ids).Stepped scope (S ids)) :
    ((if rows.isEmpty then return ids else do
        let created ← Action.perform scope (.bulkCreate target rows)
        return ids ++ (← created.mapM fun row =>
          (primaryKey target row : Except ApiError Json)) : Action (List Json)) >>= f).Stepped scope
      fun steps => ∃ keys rest, (rows = [] → keys = []) ∧ S (ids ++ keys) rest ∧
        steps = bulkCreates target rows keys ++ rest := by
  cases rows with
  | nil =>
    intro t result h
    obtain ⟨rest, hrest, hfollows⟩ := hf ids t result h
    exact ⟨rest, ⟨[], rest, fun _ => rfl, by rwa [List.append_nil], rfl⟩, hfollows⟩
  | cons row rows =>
    intro t result hruns
    simp only [List.isEmpty_cons, Bool.false_eq_true, if_false, bind_assoc, pure_bind] at hruns
    obtain ⟨reply, u, rfl, h⟩ := runs_perform_bind.1 hruns
    obtain ⟨rest, hrest⟩ := (hf (ids ++ [])).exists
    -- whatever the keys, the write may end here
    have hends {e : Exchange} (hends : Step.Ends scope (.bulkCreate target (row :: rows) []) e) :
        ∃ steps, (∃ keys rest, (row :: rows = [] → keys = []) ∧ S (ids ++ keys) rest ∧
          steps = bulkCreates target (row :: rows) keys ++ rest) ∧ Follows scope steps [e] :=
      ⟨_, ⟨[], rest, nofun, hrest, rfl⟩, .ends rest hends⟩
    cases reply with
    | error e =>
      obtain ⟨rfl, -⟩ := h
      exact hends (.failed (.bulkCreate _ _ _) e)
    | ok created =>
      obtain ⟨e, hkeys, -⟩ | ⟨_, v, keys, rfl, hkeys, hlink⟩ := runs_bind.1 h
      · obtain ⟨rfl, ⟨_, hok, -⟩ | ⟨_, row', -, hrow, hnone⟩⟩ := runs_primaryKeys hkeys
        · cases hok
        · exact hends (.unkeyedRow hrow hnone)
      · obtain ⟨rfl, ⟨_, hok, hkeys⟩ | ⟨_, _, he, -⟩⟩ := runs_primaryKeys hkeys
        · cases hok
          obtain ⟨rest, hrest, hfollows⟩ := hf _ v result hlink
          exact ⟨_, ⟨keys, rest, nofun, hrest, rfl⟩, .passes (.bulkCreate hkeys) hfollows⟩
        · cases he

/-- **The targets of a link** are looked up or created. -/
theorem stepped_resolveTargets_bind {link : Link} {S : List Json → List Step → Prop}
    {f : List Json → Action β} (hf : ∀ ids, (f ids).Stepped scope (S ids)) :
    (resolveTargets scope a link >>= f).Stepped scope fun steps => ∃ rows keys rest,
      (link.rows.mapM (fillId a.target)).Yields rows ∧ (rows = [] → keys = []) ∧
      S (link.ids ++ keys) rest ∧
      steps = lookUps a.target link.ids ++ bulkCreates a.target rows keys ++ rest := by
  unfold resolveTargets
  simp only [bind_assoc]
  refine (silent_mapM (silent_fillId a.target) _).stepped_bind fun rows hrows => ?_
  refine (stepped_requireExisting_bind (stepped_bulkCreate_bind hf) link.ids).mono ?_
  rintro _ ⟨_, ⟨keys, rest, hkeys, hrest, rfl⟩, rfl⟩
  exact ⟨rows, keys, rest, hrows, hkeys, hrest, by rw [List.append_assoc]⟩

/-- **The row is created**, and its key is read from the answer. -/
theorem stepped_create_bind {row : Object} {S : Json → List Step → Prop}
    {f : Object → Json → Action β} (hf : ∀ created key, (f created key).Stepped scope (S key)) :
    (Action.perform scope (.create schema row) >>= fun created =>
      (liftM (primaryKey schema created) : Action Json) >>= f created).Stepped scope
      fun steps => ∃ key rest, S key rest ∧ steps = .create schema row key :: rest := by
  intro t result hruns
  obtain ⟨reply, u, rfl, h⟩ := runs_perform_bind.1 hruns
  obtain ⟨rest, hrest⟩ := (hf [] .null).exists
  cases reply with
  | error e =>
    obtain ⟨rfl, -⟩ := h
    exact ⟨_, ⟨.null, rest, hrest, rfl⟩, .ends rest (.failed (.create _ _ _) e)⟩
  | ok created =>
    replace h := runs_liftM_bind.1 h
    unfold primaryKey at h
    cases hkey : created.get? schema.idField with
    | none =>
      rw [hkey] at h
      obtain ⟨rfl, -⟩ := h
      exact ⟨_, ⟨.null, rest, hrest, rfl⟩, .ends rest (.unkeyed hkey)⟩
    | some key =>
      rw [hkey] at h
      obtain ⟨rest, hrest, hfollows⟩ := hf created key u result h
      exact ⟨_, ⟨key, rest, hrest, rfl⟩, .passes (.create hkey) hfollows⟩

/-- **The row to change is looked up**, and nothing else is done if it is absent. -/
theorem stepped_address_bind {id : Json} {f : Unit → Action β} (hf : (f ()).Stepped scope S) :
    (Action.perform scope (.existingIds schema [id]) >>= fun found =>
      if found.isEmpty then (throw (notFound schema id) : Action Unit) >>= f else f ()).Stepped scope
      (Before [.address schema id] S) := by
  intro t result hruns
  obtain ⟨reply, u, rfl, h⟩ := runs_perform_bind.1 hruns
  obtain ⟨rest, hrest⟩ := hf.exists
  cases reply with
  | error e =>
    obtain ⟨rfl, -⟩ := h
    exact ⟨_, ⟨rest, hrest, rfl⟩, .ends rest (.failed (.address _ _) e)⟩
  | ok found =>
    cases found with
    | nil =>
      obtain ⟨rfl, -⟩ := runs_throw_bind.1 h
      exact ⟨_, ⟨rest, hrest, rfl⟩, .ends rest .absent⟩
    | cons key keys =>
      obtain ⟨rest, hrest, hfollows⟩ := hf u result h
      exact ⟨_, ⟨rest, hrest, rfl⟩, .passes (.address (List.cons_ne_nil _ _)) hfollows⟩

/-- **Keys of the row are looked up** in their order. -/
theorem stepped_inlineKeys_bind {keys : List OwnKey} {row related : Object}
    {f : Object × Object → Action β}
    (hf : ∀ related, (f (keyed keys row, related)).Stepped scope S) :
    (inlineKeys scope keys row related >>= f).Stepped scope (Before (keySteps keys) S) := by
  induction keys generalizing row related with
  | nil => exact before_nil (hf related)
  | cons key rest ih =>
    unfold inlineKeys
    have hrest : (inlineKeys scope rest (row.insert key.field (key.id.getD .null))
        (related.insert key.association.name (key.id.getD .null)) >>= f).Stepped scope
          (Before (keySteps rest) S) := ih hf
    have hsteps : keySteps (key :: rest) =
        lookUps key.association.target key.id.toList ++ keySteps rest := rfl
    rw [hsteps]
    cases hid : key.id with
    | none =>
      rw [hid] at hrest
      exact hrest
    | some id =>
      rw [hid] at hrest
      simp only [bind_assoc]
      refine (stepped_requireExisting_bind hrest [id]).mono ?_
      rintro _ ⟨_, ⟨steps, hsteps, rfl⟩, rfl⟩
      exact ⟨steps, hsteps, (List.append_assoc ..).symm⟩

/-- **Links are written one after the other**, each after its targets. -/
theorem stepped_writeLinks_bind (write : Association → List Json → Step)
    {links : List (Association × Link)} {related : Object} {f : Object → Action β}
    (hpasses : ∀ a ids answer, (write a ids).Passes scope
      ⟨.perform scope (write a ids).operation, .ok answer⟩)
    (hf : ∀ related, (f related).Stepped scope S) :
    (writeLinks scope (fun a ids => (write a ids).operation) links related >>= f).Stepped scope
      fun steps => ∃ linked rest, LinkSteps write links linked ∧ S rest ∧
        steps = linked ++ rest := by
  induction links generalizing related with
  | nil =>
    exact (hf related).mono fun steps hsteps => ⟨[], steps, .nil, hsteps, rfl⟩
  | cons x links ih =>
    obtain ⟨a, link⟩ := x
    unfold writeLinks
    simp only [bind_assoc]
    refine (stepped_resolveTargets_bind fun ids => stepped_perform_bind (write a ids)
      (hpasses a ids) fun _ => ih).mono ?_
    rintro _ ⟨rows, keys, _, hrows, hkeys, ⟨_, ⟨linked, rest, hlinked, hrest, rfl⟩, rfl⟩, rfl⟩
    exact ⟨_, rest, .cons hrows hkeys hlinked, hrest, by simp⟩

/-! ## Writes -/

variable {r : Registry} {payload : Payload} {id : Json} {p : Parts}

/-- **A create takes its steps.** -/
theorem stepped_createWith
    (hsorts : Parts.Sorts r schema payload.relationships p.keys p.links)
    (hattributes : p.attributes = payload.attributes) :
    (createWith scope schema payload.id p).Stepped scope (CreateSteps r schema payload) := by
  unfold createWith
  refine (stepped_inlineKeys_bind fun related =>
    ((silent_assignId _ _ _).stepped_bind (S := fun steps => ∃ row,
      (assignId schema payload.id (keyed p.keys p.attributes)).Yields row ∧
      ∃ key linked, LinkSteps (.addLinks · key) p.links linked ∧
        steps = .create schema row key :: linked) fun row hrow => ?_)).mono ?_
  · refine (stepped_create_bind fun created key =>
      stepped_writeLinks_bind (.addLinks · key) (fun _ _ _ => .addLinks)
        fun related => stepped_pure _).mono ?_
    rintro _ ⟨key, _, ⟨linked, _, hlinked, rfl, rfl⟩, rfl⟩
    exact ⟨row, hrow, key, linked, hlinked, by rw [List.append_nil]⟩
  · rintro _ ⟨_, ⟨row, hrow, key, linked, hlinked, rfl⟩, rfl⟩
    exact ⟨p.keys, p.links, row, key, linked, hsorts, hattributes ▸ hrow, hlinked, rfl⟩

theorem stepped_reload (related : Object) :
    (reload r scope schema id related).Stepped scope
      (· = [.reread schema (reloadPlan r schema id)]) := by
  unfold reload findOne
  simp only [bind_assoc]
  refine (stepped_perform_bind (.reread schema (reloadPlan r schema id)) (fun rows => .reread rows)
    (S := (· = [])) fun rows => ?_).mono ?_
  · cases rows with
    | nil => exact stepped_throw_bind _
    | cons row rows => exact stepped_pure _
  · rintro _ ⟨_, rfl, rfl⟩
    rfl

/-- The links of an update are set before the row is read again. -/
theorem stepped_setLinks (links : List (Association × Link)) (related : Object) :
    (writeLinks scope (fun a ids => .setLinks a id ids) links related >>=
      reload r scope schema id).Stepped scope fun steps => ∃ linked,
        LinkSteps (.setLinks · id) links linked ∧
        steps = linked ++ [Step.reread schema (reloadPlan r schema id)] := by
  refine (stepped_writeLinks_bind (.setLinks · id) (fun _ _ _ => .setLinks)
    stepped_reload).mono ?_
  rintro _ ⟨linked, _, hlinked, rfl, rfl⟩
  exact ⟨linked, hlinked, rfl⟩

theorem insert_ne_nil (row : Object) (field : String) (value : Json) :
    row.insert field value ≠ [] := by
  unfold Object.insert
  split
  · exact List.cons_ne_nil _ _
  · split_ifs <;> exact List.cons_ne_nil _ _

/-- A row is empty only if it has neither attributes nor keys. -/
theorem keyed_eq_nil {keys : List OwnKey} {row : Object} :
    keyed keys row = [] ↔ row = [] ∧ keys = [] := by
  induction keys generalizing row with
  | nil => simp [keyed]
  | cons key rest ih =>
    have hrest : keyed (key :: rest) row = keyed rest (row.insert key.field (key.id.getD .null)) :=
      rfl
    simp [hrest, ih, insert_ne_nil]

/-- **An update takes its steps.** -/
theorem stepped_updateWith
    (hsorts : Parts.Sorts r schema payload.relationships p.keys p.links)
    (hattributes : p.attributes = payload.attributes) :
    (updateWith r scope schema id p).Stepped scope (UpdateSteps r schema id payload) := by
  unfold updateWith
  refine (stepped_address_bind (stepped_inlineKeys_bind (S := fun steps => ∃ linked,
    LinkSteps (.setLinks · id) p.links linked ∧ steps =
      (if p.attributes = [] ∧ p.keys = [] then []
        else [Step.change schema (keyed p.keys p.attributes) id]) ++
      (linked ++ [Step.reread schema (reloadPlan r schema id)])) fun related => ?_)).mono ?_
  · dsimp only
    simp only [← keyed_eq_nil]
    cases hrow : keyed p.keys p.attributes with
    | nil => exact stepped_setLinks p.links related
    | cons member members =>
      refine (stepped_perform_bind (.change schema (member :: members) id) (fun n => .change n)
        fun _ => stepped_setLinks p.links related).mono ?_
      rintro _ ⟨_, ⟨linked, hlinked, rfl⟩, rfl⟩
      exact ⟨linked, hlinked, rfl⟩
  · rintro _ ⟨_, ⟨_, ⟨linked, hlinked, rfl⟩, rfl⟩, rfl⟩
    refine ⟨p.keys, p.links, linked, hsorts, hlinked, ?_⟩
    rw [hattributes]
    simp only [List.append_assoc, List.singleton_append]

/-! ## Transactions -/

/-- The exchanges of a write in a transaction of its own, inside of which it follows steps of the kind:
nothing if the payload is refused, and a failure if the transaction does not begin. -/
inductive Enclosed (S : List Step → Prop) : List Exchange → Prop
  | refused : Enclosed S []
  | notBegun (e : StoreError) : Enclosed S [⟨.begin, .error e⟩]
  | inside {steps : List Step} {t : List Exchange} {last : Exchange} : S steps →
      Follows .transaction steps t → t.map (·.call) <+: steps.map (·.call .transaction) →
      last.call = .commit ∨ last.call = .rollback →
      Enclosed S (⟨.begin, .ok ()⟩ :: (t ++ [last]))

/-- Work that follows steps is enclosed by its transaction. -/
theorem enclosed_of_stepped {work : Action Record} (hwork : work.Stepped .transaction S)
    {t : List Exchange} {result : Except ApiError Record}
    (h : (inTransaction work).Runs t result) : Enclosed S t := by
  have inside {body : List Exchange} {outcome : Except ApiError Record} {last : Exchange}
      (hbody : work.Runs body outcome) (hlast : last.call = .commit ∨ last.call = .rollback) :
      Enclosed S (⟨.begin, .ok ()⟩ :: (body ++ [last])) := by
    obtain ⟨steps, hsteps, hfollows⟩ := hwork body outcome hbody
    exact .inside hsteps hfollows hfollows.prefix hlast
  cases runs_inTransaction.1 h with
  | refused e => exact .notBegun e
  | committed hbody => exact inside hbody (.inl rfl)
  | notCommitted e hbody => exact inside hbody (.inl rfl)
  | rolledBack reply hbody => exact inside hbody (.inr rfl)

/-- **Steps of writes.** -/
theorem steps_of_writes (r : Registry) (schema : Schema) (id : Json) (payload : Payload)
    (h : payload.relationships ≠ []) :
    (∀ t result, (create r schema payload).Runs t result →
      Enclosed (CreateSteps r schema payload) t) ∧
    ∀ t result, (update r schema id payload).Runs t result →
      Enclosed (UpdateSteps r schema id payload) t := by
  constructor
  · intro t result hruns
    cases hp : parts r schema payload with
    | error e =>
      rw [(runs_create_nil hruns).2 ⟨e, hp⟩]
      exact .refused
    | ok p =>
      obtain ⟨hattributes, hsorts⟩ := Parts.sorts_of_parts hp
      rw [create_eq_inTransaction r schema payload hp h] at hruns
      exact enclosed_of_stepped (stepped_createWith hsorts hattributes) hruns
  · intro t result hruns
    cases hi : checkPayloadId schema id payload with
    | error e =>
      rw [(runs_update_nil hruns).2 (.inl ⟨e, hi⟩)]
      exact .refused
    | ok =>
      cases hp : parts r schema payload with
      | error e =>
        rw [(runs_update_nil hruns).2 (.inr ⟨e, hp⟩)]
        exact .refused
      | ok p =>
        obtain ⟨hattributes, hsorts⟩ := Parts.sorts_of_parts hp
        rw [update_eq_inTransaction r schema id payload hi hp h] at hruns
        exact enclosed_of_stepped (stepped_updateWith hsorts hattributes) hruns

/-- The exchanges of an update of node 1 with a store that answers the lookup of this row with
another identifier. -/
def strayed : List Exchange :=
  [⟨.begin, .ok ()⟩,
    ⟨.perform .transaction (.existingIds treeNode [.int 1]), .ok [.int 2]⟩,
    ⟨.perform .transaction (.update treeNode [("name", .str "x"), ("upId", .null)]
      (.idIs treeNode (.int 1))), .ok 1⟩,
    ⟨.perform .transaction (.find treeNode (reloadPlan tree treeNode (.int 1))),
      .ok [[("id", .int 1)]]⟩,
    ⟨.commit, .ok ()⟩]

/-- The record that the update is answered with. -/
def strayedRecord : Record := ⟨.int 1, [("id", .int 1)], [("up", .null)]⟩

theorem runs_strayed :
    (update tree treeNode (.int 1) (nodePayload [("up", .one none)])).Runs strayed
      (.ok strayedRecord) := by
  have hparts : parts tree treeNode (nodePayload [("up", .one none)]) = .ok topParts := by
    decide +kernel
  rw [update_eq_inTransaction tree treeNode (.int 1) _ rfl hparts (List.cons_ne_nil _ _),
    runs_inTransaction]
  have hreread : (reload tree .transaction treeNode (.int 1) [("up", .null)]).Runs
      [⟨.perform .transaction (.find treeNode (reloadPlan tree treeNode (.int 1))),
        .ok [[("id", .int 1)]]⟩] (.ok strayedRecord) :=
    runs_bind.2 (.inr ⟨_, [], _, rfl,
      runs_perform_bind.2 ⟨.ok [[("id", .int 1)]], [], rfl, runs_pure.2 ⟨rfl, rfl⟩⟩,
      runs_pure.2 ⟨rfl, rfl⟩⟩)
  have hupdate : (updateWith tree .transaction treeNode (.int 1) topParts).Runs
      strayed.tail.dropLast (.ok strayedRecord) :=
    runs_perform_bind.2 ⟨.ok [.int 2], _, rfl, runs_perform_bind.2 ⟨.ok 1, _, rfl, hreread⟩⟩
  exact .committed hupdate

/-- An update of a node that is put at the top of its tree. -/
theorem steps_of_topNode : (nodePayload [("up", .one none)]).relationships ≠ [] ∧
    (update tree treeNode (.int 1) (nodePayload [("up", .one none)])).Runs strayed
      (.ok strayedRecord) ∧
    Enclosed (UpdateSteps tree treeNode (.int 1) (nodePayload [("up", .one none)])) strayed := by
  have hlinked : (nodePayload [("up", .one none)]).relationships ≠ [] := List.cons_ne_nil _ _
  exact ⟨hlinked, runs_strayed,
    (steps_of_writes tree treeNode (.int 1) _ hlinked).2 strayed _ runs_strayed⟩

/-- **The lookup of the row to change is not compared with its identifier.** The store does not answer
it with the identifier of the row, and the update goes on. -/
theorem update_goes_on : ∃ before lookUp after result,
    (update tree treeNode (.int 1) (nodePayload [("up", .one none)])).Runs
      (before ++ lookUp :: after) result ∧
    (∃ found, lookUp = ⟨.perform .transaction (.existingIds treeNode [.int 1]), .ok found⟩ ∧
      ∀ id ∈ found, ¬ (Json.int 1).agrees id) ∧
    ∃ e ∈ after, e.IsIn .transaction :=
  ⟨[⟨.begin, .ok ()⟩], _, _, _, runs_strayed, ⟨[.int 2], rfl, by decide⟩, _, List.mem_cons_self,
    _, rfl⟩

end Engine

end ResourceApi
