import ResourceApi.Proofs.Engine.Agreement
import ResourceApi.Proofs.Engine.Linkage
import ResourceApi.Proofs.Engine.Served

/-!
# Between requests

A session is *idle* when no transaction is open (`Session.Idle`). A program that keeps a property of
idle sessions may begin and end transactions: those that fail leave nothing, so it is enough to look
at single operations on the store and at work that succeeds (`Program.keepsIdle_inTransaction`).

**Theorem (`Service.Served.idle`).** What creates, updates and deletions keep, and what holds for
empty tables, holds of the database after every request.
-/

namespace ResourceApi

variable {α β ε : Type} {r : Registry} {P : Database → Prop}

namespace Session

/-- No transaction is open, and the database is regular and has the property. -/
structure Idle (r : Registry) (P : Database → Prop) (s : Session) : Prop where
  registry : s.registry = r
  saved : s.saved = none
  regular : s.database.Regular r
  holds : P s.database

theorem Idle.holdsRegular {s : Session} (h : s.Idle r P) : s.Holds (Database.Regular r) :=
  ⟨h.regular, by rw [h.saved]; nofun⟩

/-- A program that works in a transaction is answered to its end and leaves the transaction open. -/
theorem exists_run_within {p : Program α}
    (hp : ∀ t a, p.Runs t a → ∀ e ∈ t, e.IsIn .transaction) (supply : Nat → String) (s : Session) :
    ∃ a s', run supply p s = (.ok a, s') ∧ s'.saved = s.saved := by
  induction p generalizing s with
  | done a => exact ⟨a, s, rfl, rfl⟩
  | draw next ih =>
    exact ih (supply s.drawn) (fun t a h => hp t a (.draw _ h)) { s with drawn := s.drawn + 1 }
  | call c next ih =>
    -- the program has some run, so its first call is an operation in the transaction
    obtain ⟨t, hruns, -⟩ := Script.exists_runs supply (.call c next) ⟨[], [], 1, 0, 0⟩
    cases hruns with
    | call reply hnext =>
      obtain ⟨o, rfl⟩ := hp _ _ (.call reply hnext) _ List.mem_cons_self
      obtain ⟨a, s', hrun, hsaved⟩ := ih ((perform o).run s).1
        (fun t a h e he => hp _ _ (.call _ h) e (List.mem_cons_of_mem _ he)) ((perform o).run s).2
      exact ⟨a, s', hrun, hsaved.trans (framed_perform o s).2⟩

end Session

/-! ## Programs -/

namespace Program

open Session

/-- Run in an idle session with the property, the program leaves one, however it ends. -/
def KeepsIdle (r : Registry) (P : Database → Prop) (p : Program α) : Prop :=
  ∀ supply s, s.Idle r P → (Session.run supply p s).2.Idle r P

theorem keepsIdle_done (a : α) : KeepsIdle r P (done a) := fun _ _ h => h

theorem keepsIdle_drawn : KeepsIdle r P drawn :=
  fun _ _ h => ⟨h.registry, h.saved, h.regular, h.holds⟩

theorem KeepsIdle.bind {p : Program α} {f : α → Program β} (hp : KeepsIdle r P p)
    (hf : ∀ a, KeepsIdle r P (f a)) : KeepsIdle r P (p >>= f) := by
  intro supply s hs
  have hidle := hp supply s hs
  rw [run_program_bind]
  generalize Session.run supply p s = out at hidle ⊢
  obtain ⟨_ | a, s'⟩ := out
  · exact hidle
  · exact hf a supply s' hidle

/-- What may fail goes on only if it succeeds. -/
theorem KeepsIdle.bind_run {x : ExceptT ε Program α} {f : α → ExceptT ε Program β}
    (hx : KeepsIdle r P x.run) (hf : ∀ a, KeepsIdle r P (f a).run) :
    KeepsIdle r P (x >>= f).run := by
  rw [ExceptT.run_bind]
  refine hx.bind fun result => ?_
  cases result with
  | ok a => exact hf a
  | error e => exact keepsIdle_done _

theorem keepsIdle_checked {x : Except ε α} {f : α → ExceptT ε Program β}
    (hf : ∀ a, x = .ok a → KeepsIdle r P (f a).run) :
    KeepsIdle r P ((ExceptT.mk (pure x) : ExceptT ε Program α) >>= f).run := by
  cases x with
  | error e => exact keepsIdle_done (Except.error e)
  | ok a => exact hf a rfl

section

variable (hl : TablesLinked r.tables)
include hl

/-- An operation on the store. -/
theorem keepsIdle_perform {o : Operation}
    (h : ∀ s : Session, s.Idle r P → P ((Session.perform o).run s).2.database) :
    KeepsIdle r P (Action.perform .store o).run := by
  intro supply s hs
  have hregular := (hs.holdsRegular.perform (Action.keeps_perform_regular hl) o).database
  obtain ⟨hregistry, hsaved⟩ := framed_perform o s
  have hserves : s.Serves .store := fun _ => hs.saved
  rw [← bind_pure (Action.perform .store o), run_perform_bind hserves]
  have hidle : ((Session.perform o).run s).2.Idle r P :=
    ⟨hregistry.trans hs.registry, hsaved.trans hs.saved, hregular, h s hs⟩
  generalize (Session.perform o).run s = out at hidle ⊢
  obtain ⟨_ | a, s'⟩ := out <;> exact hidle

theorem keepsIdle_of_reads {o : Operation} (h : Reads (Session.perform o)) :
    KeepsIdle r P (Action.perform .store o).run :=
  keepsIdle_perform hl fun s hs => h.keeps s hs.holds

theorem keepsIdle_of_changes {o : Operation}
    {g : Registry → Database → Except StoreError (Database × o.Answer)}
    (hg : Changes (Session.perform o) g)
    (h : ∀ db db' a, db.Regular r → P db → g r db = .ok (db', a) → P db') :
    KeepsIdle r P (Action.perform .store o).run := by
  refine keepsIdle_perform hl fun s hs => ?_
  have hchanges := hg.2 s
  rw [hs.registry] at hchanges
  cases hresult : g r s.database with
  | error e =>
    rw [hresult] at hchanges
    rw [hchanges.2]
    exact hs.holds
  | ok out =>
    rw [hresult] at hchanges
    rw [hchanges.2]
    exact h _ _ _ hs.regular hs.holds hresult

/-- **Transactions keep what their successful work keeps.** -/
theorem keepsIdle_inTransaction {work : Action α} (hw : work.Within .transaction)
    (h : ∀ db a db', work.Takes r db a db' → P db → P db') :
    KeepsIdle r P (Action.inTransaction work).run := by
  intro supply s hs
  obtain ⟨begun, -, hhas, hends⟩ := exists_begun supply hs.saved work
  obtain ⟨result, s', hrun, hsaved⟩ := exists_run_within hw supply begun
  have hwork : Ends supply work begun result s'.database :=
    ⟨congrArg Prod.fst hrun, by rw [hrun], by rw [hrun, hsaved]⟩
  obtain ⟨-, hdatabase, hleft⟩ := hends result s'.database hwork
  refine ⟨(registry_of_run supply _ s).trans hs.registry, hleft.trans hs.saved,
    (hs.holdsRegular.run (Action.keeps_perform_regular hl) supply _).database, ?_⟩
  rw [hdatabase]
  cases result with
  | error e => exact hs.holds
  | ok a =>
    refine h s.database a s'.database
      ⟨supply, begun, s', hhas.registry.trans hs.registry, ⟨?_, fun db hdb => ?_⟩, hrun,
        hhas.database, rfl⟩ hs.holds
    · exact hhas.database ▸ hs.regular
    · rw [hhas.saved] at hdb
      exact Option.some.inj hdb ▸ hs.regular

end

end Program

/-! ## Requests -/

namespace Route

/-- Routes lead to schemas of the registry. -/
theorem schema_mem_of_resolve? {served path : String} {method : Method} {route : Route}
    (h : resolve? r served method path = some route) : route.schema ∈ r.schemas := by
  unfold resolve? at h
  obtain ⟨body, -, h⟩ := Option.bind_eq_some_iff.1 h
  split at h
  · rename_i schema hschema
    have hm := List.mem_of_find?_eq_some hschema
    cases method <;> cases h <;> exact hm
  · obtain ⟨⟨endpoint, rawId⟩, -, h⟩ := Option.bind_eq_some_iff.1 h
    obtain ⟨schema, hschema, h⟩ := Option.bind_eq_some_iff.1 h
    obtain ⟨id, -, h⟩ := Option.bind_eq_some_iff.1 h
    have hm := List.mem_of_find?_eq_some hschema
    cases method <;> cases h <;> exact hm

end Route

namespace Engine

open Program Session

variable {schema : Schema}

theorem keepsIdle_assignId {given : Option Json} {row : Object} {f : Object → Action α}
    (hf : ∀ row', row.SameBeside schema.idField row' → KeepsIdle r P (f row').run) :
    KeepsIdle r P (assignId schema given row >>= f).run := by
  have hgiven := row.sameBeside_given schema.idField given
  unfold assignId fillId
  split
  · exact keepsIdle_drawn.bind fun id => hf _ (hgiven.insert _)
  · exact hf _ hgiven

theorem keepsIdle_findOne (hl : TablesLinked r.tables) {id : Json} {plan : Plan} :
    KeepsIdle r P (findOne .store schema id plan).run := by
  have hreads : Reads (perform (.find schema plan)) := reads_find schema plan
  refine (keepsIdle_of_reads hl hreads).bind_run fun rows => ?_
  cases rows <;> exact keepsIdle_done _

theorem keepsIdle_findAll (hl : TablesLinked r.tables) {plan : Plan} :
    KeepsIdle r P (findAll .store schema plan).run := by
  have hfinds : Reads (perform (.find schema plan)) := reads_find schema plan
  have hcounts : Reads (perform (.count schema plan.filter)) := reads_count schema plan.filter
  exact (keepsIdle_of_reads hl hfinds).bind_run fun _ =>
    (keepsIdle_of_reads hl hcounts).bind_run fun _ => keepsIdle_done _

end Engine

namespace Service

open Program Session

variable {service : Service} {s : Session}

theorem keepsIdle_act {action : Action α} (h : KeepsIdle r P action.run) :
    KeepsIdle r P (act action).run := by
  show KeepsIdle r P (Except.mapError Failure.failed <$> action.run)
  rw [map_eq_pure_bind]
  exact h.bind fun _ => keepsIdle_done _

/-- What the writes of resources keep between requests. -/
structure WritesKeep (r : Registry) (P : Database → Prop) : Prop where
  create : ∀ schema ∈ r.schemas, ∀ payload : Payload, payload.Declared r schema →
    (payload.relationships.map (·.1)).Nodup → KeepsIdle r P (Engine.create r schema payload).run
  update : ∀ schema ∈ r.schemas, ∀ (id : Json) (payload : Payload), payload.Declared r schema →
    (payload.relationships.map (·.1)).Nodup →
      KeepsIdle r P (Engine.update r schema id payload).run
  destroy : ∀ schema ∈ r.schemas, ∀ id, KeepsIdle r P (Engine.destroy .store schema id).run

/-- A route is served by reading, or by a write. -/
theorem WritesKeep.serve (hl : TablesLinked r.tables) (hw : WritesKeep r P) {request : Request}
    (hn : request.NamesRelationshipsOnce) {query : String} {route : Route}
    (hs : route.schema ∈ r.schemas) :
    KeepsIdle r P (Service.serve r query (request.body.getD .null) route).run := by
  cases route with
  | findAll schema =>
    exact keepsIdle_checked fun plan _ => (keepsIdle_act (Engine.keepsIdle_findAll hl)).bind_run
      fun _ => keepsIdle_done _
  | findOne schema raw =>
    exact keepsIdle_checked fun plan _ => (keepsIdle_act (keepsIdle_done _)).bind_run fun id =>
      (keepsIdle_act (Engine.keepsIdle_findOne hl)).bind_run fun _ => keepsIdle_done _
  | create schema =>
    refine keepsIdle_checked fun payload hread => ?_
    have hpayload := mapError_eq_ok.1 hread
    have hkeeps := hw.create schema hs payload (Payload.declared_of_ofDocument hpayload)
      (Payload.nodup_of_ofDocument hpayload hn)
    exact (keepsIdle_act hkeeps).bind_run fun _ => keepsIdle_done _
  | update schema raw =>
    refine (keepsIdle_act (keepsIdle_done _)).bind_run fun id => ?_
    refine keepsIdle_checked fun payload hread => ?_
    have hpayload := mapError_eq_ok.1 hread
    have hkeeps := hw.update schema hs id payload (Payload.declared_of_ofDocument hpayload)
      (Payload.nodup_of_ofDocument hpayload hn)
    exact (keepsIdle_act hkeeps).bind_run fun _ => keepsIdle_done _
  | destroy schema raw =>
    exact (keepsIdle_act (keepsIdle_done _)).bind_run fun id =>
      (keepsIdle_act (hw.destroy schema hs id)).bind_run fun _ => keepsIdle_done _

/-- **What writes keep holds between requests**, if it holds for empty tables. -/
theorem Served.idle {schemas : List Schema} (h : Registry.assemble schemas = .ok service.registry)
    (hn : (service.registry.tables.map (·.name)).Nodup)
    (hstart : ∀ s, Session.start service.registry = .ok s → P s.database)
    (hw : service.registry.Creatable → WritesKeep service.registry P) (hs : service.Served s) :
    s.Idle service.registry P := by
  induction hs with
  | @start s hstarts =>
    have hregular := (regular_of_reachable h hn (.start hstarts)).2
    exact ⟨registry_of_start hstarts, saved_of_start hstarts, hregular.database, hstart s hstarts⟩
  | @serve s request serving supply hserved hnames hdispatch ih =>
    have hc := (regular_of_reachable h hn hserved.reachable).1
    obtain ⟨route, hroute, rfl⟩ := Option.map_eq_some_iff.1 hdispatch
    exact (hw hc).serve (Registry.tablesLinked h hc) hnames (Route.schema_mem_of_resolve? hroute)
      supply s ih

end Service

end ResourceApi
