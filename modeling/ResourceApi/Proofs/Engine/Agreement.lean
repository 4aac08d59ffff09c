import ResourceApi.Proofs.Engine.Addressing
import ResourceApi.Proofs.Engine.Atomicity
import ResourceApi.Proofs.Sql.Identity
import ResourceApi.Proofs.Store.Reachable
import ResourceApi.Proofs.Store.Success

/-!
# Writes within and without a transaction

A write without linkage goes straight to the store. Its form for a transaction of the caller takes
the steps of a write with linkage: an update first asks whether its row is there, where the plain
update counts the rows that it changes.

**Theorem (`Engine.unlinked_writes_agree`).** From a sound session, such a write has the same result
and leaves the same database, whether it is run plainly or in a transaction that is committed if it
succeeds and rolled back if it fails. An update looks for its row by the name of the primary key,
which must have no dots for that.

`Session.Ends` says how an action ends. What the two forms come to is told from the database alone
(`Engine.UpdatesTo`), so each of them is followed once. What is rolled back after a failure must be
nothing: whatever can fail after the one change of the plain write does not, because a created row
has its key and a changed row can be read again.
-/

namespace ResourceApi

variable {α β : Type} {supply : Nat → String} {s : Session} {db : Database}

/-! ## How actions end -/

/-- From the session, the action ends with the result and leaves the database in place. The database
to which an open transaction can return is the one that it was. -/
structure Session.Ends (supply : Nat → String) (x : Action α) (s : Session)
    (result : Except ApiError α) (db : Database) : Prop where
  result : (run supply x.run s).1 = .ok result
  database : (run supply x.run s).2.database = db
  saved : (run supply x.run s).2.saved = s.saved

/-- The session has the registry, the database, and the database to which it can return. -/
structure Session.Has (s : Session) (r : Registry) (db : Database) (saved : Option Database) :
    Prop where
  registry : s.registry = r
  database : s.database = db
  saved : s.saved = saved

namespace Session

variable {scope : Scope} {o : Operation} {f : o.Answer → Action β} {result : Except ApiError β}

theorem ends_pure (a : α) : Ends supply (pure a) s (.ok a) s.database := ⟨rfl, rfl, rfl⟩

theorem ends_throw (e : ApiError) : Ends supply (throw e : Action α) s (.error e) s.database :=
  ⟨rfl, rfl, rfl⟩

variable {g : Registry → Database → Except StoreError (Database × o.Answer)}

/-- An action ends where its first operation fails. -/
theorem ends_perform_error (hs : s.Serves scope) (hg : Changes (perform o) g) {e : StoreError}
    (he : g s.registry s.database = .error e) :
    Ends supply (Action.perform scope o >>= f) s (.error e.toApiError) s.database := by
  have hanswer := hg.2 s
  have hsaved := (hg.1 s).2
  rw [he] at hanswer
  have hrun : run supply (Action.perform scope o >>= f).run s = _ := run_perform_bind hs
  generalize (perform o).run s = out at hanswer hsaved hrun
  obtain ⟨reply, s'⟩ := out
  obtain ⟨rfl, hdb⟩ := hanswer
  exact ⟨by rw [hrun], by rw [hrun]; exact hdb, by rw [hrun]; exact hsaved⟩

/-- An action goes on where its first operation has been answered. -/
theorem ends_perform_of_run (hs : s.Serves scope) {s' : Session} {a : o.Answer}
    (ha : (perform o).run s = (.ok a, s'))
    (h : s'.Has s.registry s'.database s.saved → Ends supply (f a) s' result db) :
    Ends supply (Action.perform scope o >>= f) s result db := by
  obtain ⟨hregistry, hsaved⟩ := framed_perform o s
  have hrun : run supply (Action.perform scope o >>= f).run s = _ := run_perform_bind hs
  rw [ha] at hregistry hsaved hrun
  have hends := h ⟨hregistry, rfl, hsaved⟩
  exact ⟨by rw [hrun]; exact hends.result, by rw [hrun]; exact hends.database,
    by rw [hrun]; exact hends.saved.trans hsaved⟩

/-- An action goes on with the answer and the database of its first operation. -/
theorem ends_perform_ok (hs : s.Serves scope) (hg : Changes (perform o) g) {db₁ : Database}
    {a : o.Answer} (ha : g s.registry s.database = .ok (db₁, a))
    (h : ∀ s' : Session, s'.Has s.registry db₁ s.saved → Ends supply (f a) s' result db) :
    Ends supply (Action.perform scope o >>= f) s result db := by
  obtain ⟨s', hrun, rfl⟩ := hg.exists_run ha
  exact ends_perform_of_run hs hrun (h s')

/-- The database that the end of a transaction leaves: the one of the work, if it succeeded. -/
def settled (result : Except ApiError α) (before after : Database) : Database :=
  match result with
  | .ok _ => after
  | .error _ => before

/-- Work in a transaction of its own is run in a session where the transaction has begun, and ends
as it does there. If it fails, nothing is left. -/
theorem exists_begun (supply : Nat → String) (hs : s.saved = none) (work : Action α) :
    ∃ begun : Session,
    begun.drawn = s.drawn ∧ begun.Has s.registry s.database (some s.database) ∧
      ∀ result db, Ends supply work begun result db →
        Ends supply (Action.inTransaction work) s result (settled result s.database db) := by
  let begun : Session :=
    { s with saved := some s.database, events := s.events ++ [.transaction .begin] }
  refine ⟨begun, rfl, ⟨rfl, rfl, rfl⟩, fun result db hwork => ?_⟩
  have hanswer : (answer .begin).run s = (.ok (.ok ()), begun) := by
    show (wait >>= fun _ => _ : Waiting (Except StoreError Unit)).run s = _
    rw [run_bind, run_wait, hs]
    rfl
  have hbegun : run supply (Action.inTransaction work).run s =
      run supply (work.run >>= fun result => (Action.finish result).run) begun := by
    show (answer .begin >>= fun reply => Program.interpret (fresh supply) answer
      (ExceptT.bindCont (fun _ => ExceptT.lift work.run >>= Action.finish)
        (reply.mapError StoreError.toApiError))).run s = _
    rw [run_bind, hanswer]
    show run supply (ExceptT.lift work.run >>= Action.finish).run begun = _
    rw [ExceptT.run_bind, ExceptT.run_lift, bind_map_left]
  obtain ⟨hresult, hdb, hsaved⟩ := hwork
  rw [run_program_bind] at hbegun
  generalize run supply work.run begun = out at hresult hdb hsaved hbegun
  obtain ⟨outcome, s'⟩ := out
  obtain rfl : outcome = .ok result := hresult
  cases result with
  | ok a => exact ⟨by rw [hbegun]; rfl, by rw [hbegun]; exact hdb, by rw [hbegun]; exact hs.symm⟩
  | error e =>
    refine ⟨by rw [hbegun]; rfl, ?_, by rw [hbegun]; exact hs.symm⟩
    rw [hbegun]
    show s'.saved.getD s'.database = s.database
    rw [hsaved]
    rfl

/-- Work in a transaction of its own ends as the work does, and leaves nothing if it fails. -/
theorem ends_inTransaction {work : Action α} {result : Except ApiError α} (hs : s.saved = none)
    (h : ∀ s' : Session, s'.drawn = s.drawn → s'.Has s.registry s.database (some s.database) →
      Ends supply work s' result db) :
    Ends supply (Action.inTransaction work) s result (settled result s.database db) := by
  obtain ⟨begun, hdrawn, hhas, hends⟩ := exists_begun supply hs work
  exact hends result db (h begun hdrawn hhas)

end Session

namespace Engine

open Session

variable {schemas : List Schema} {r : Registry} {schema : Schema} {id : Json} {payload : Payload}
  {scope : Scope}

/-! ## Actions of writes -/

/-- The row with its identifier: the one that is given, or the next one drawn where it needs one. -/
def assigned (next : String) (schema : Schema) (given : Option Json) (row : Object) : Object :=
  let row := given.elim row (row.insert schema.idField)
  if schema.idType = .uuid && !row.has schema.idField then row.insert schema.idField (.str next)
  else row

/-- To give a row its identifier draws from the supply and calls nothing. -/
theorem ends_assignId {given : Option Json} {row : Object} {f : Object → Action α}
    {result : Except ApiError α}
    (h : ∀ s' : Session, s'.Has s.registry s.database s.saved →
      Ends supply (f (assigned (supply s.drawn) schema given row)) s' result db) :
    Ends supply (assignId schema given row >>= f) s result db := by
  unfold assigned at h
  unfold assignId fillId
  dsimp only at h
  split at h
  · rename_i hneeds
    rw [if_pos hneeds]
    have hends := h { s with drawn := s.drawn + 1 } ⟨rfl, rfl, rfl⟩
    exact ⟨hends.result, hends.database, hends.saved⟩
  · rename_i hneeds
    rw [if_neg hneeds]
    exact h s ⟨rfl, rfl, rfl⟩

/-! ## Creates -/

/-- A create without linkage ends alike within and without a transaction. If it fails, it leaves the
database as it was. -/
theorem exists_ends_createWith (hc : r.Creatable) (hs : schema ∈ r.schemas)
    (hregistry : s.registry = r) (hdb : s.database.Sound r.tables) (supply : Nat → String)
    (given : Option Json) (row : Object) : ∃ result db, settled result s.database db = db ∧
      ∀ (scope : Scope) (s' : Session), s'.Serves scope → s'.registry = s.registry →
        s'.database = s.database → s'.drawn = s.drawn →
          Ends supply (createWith scope schema given ⟨row, [], []⟩) s' result db := by
  have hsteps (scope : Scope) : createWith scope schema given ⟨row, [], []⟩ =
      assignId schema given row >>= fun row => Action.perform scope (.create schema row) >>=
        fun stored => liftM (primaryKey schema stored) >>= fun key => pure ⟨key, stored, []⟩ := rfl
  have hchanges (row : Object) : Changes (perform (.create schema row)) (created schema row) :=
    changes_create schema row
  cases hcreated : created schema (assigned (supply s.drawn) schema given row) r s.database with
  | error e =>
    refine ⟨.error e.toApiError, s.database, rfl, fun scope s' hserves hr hd hn => ?_⟩
    rw [hsteps]
    refine ends_assignId fun s₁ hhas => ?_
    rw [hn, ← hd, ← hhas.database]
    refine ends_perform_error (fun h => hhas.saved.trans (hserves h)) (hchanges _) ?_
    rw [hhas.registry, hhas.database, hr, hd, hregistry]
    exact hcreated
  | ok out =>
    obtain ⟨db, stored⟩ := out
    obtain ⟨row', -, hkey⟩ := exists_stored_of_created hc hdb hs hcreated
    refine ⟨.ok ⟨schema.idOf row', stored, []⟩, db, rfl, fun scope s' hserves hr hd hn => ?_⟩
    rw [hsteps]
    refine ends_assignId fun s₁ hhas => ?_
    rw [hn]
    have hstored : created schema (assigned (supply s.drawn) schema given row) s₁.registry
        s₁.database = .ok (db, stored) := by
      rw [hhas.registry, hhas.database, hr, hd, hregistry]
      exact hcreated
    refine ends_perform_ok (fun h => hhas.saved.trans (hserves h)) (hchanges _) hstored
      fun s₂ hhas₂ => ?_
    unfold primaryKey
    rw [hkey, ← hhas₂.database]
    exact ends_pure _

/-! ## Updates -/

/-- A find of one row goes on with the first row that it reads. -/
theorem ends_findOne {α : Type} {plan : Plan} {object : Object} {f : Object → Action α}
    {result : Except ApiError α} (hs : s.Serves scope) (hr : s.registry = r)
    (hdb : s.database = db) (h : ∃ rest, found schema plan r db = .ok (object :: rest))
    (hf : ∀ s' : Session, s'.Has r db s.saved → Ends supply (f object) s' result db) :
    Ends supply (findOne scope schema id plan >>= f) s result db := by
  obtain ⟨rest, h⟩ := h
  subst hr hdb
  have hchanges : Changes (perform (.find schema plan)) _ := (computes_find schema plan).changes
  have hfound : (found schema plan s.registry s.database).map (s.database, ·) =
      .ok (s.database, object :: rest) := by
    rw [h]
    rfl
  unfold findOne
  rw [bind_assoc]
  exact ends_perform_ok hs hchanges hfound hf

theorem ends_reload {object : Object} (hs : s.Serves scope) (hr : s.registry = r)
    (hdb : s.database = db)
    (h : ∃ rest, found schema (reloadPlan r schema id) r db = .ok (object :: rest)) :
    Ends supply (reload r scope schema id []) s (.ok ⟨id, object, []⟩) db := by
  refine ends_findOne hs hr hdb h fun s' hhas => ?_
  rw [← hhas.database]
  exact ends_pure _

/-- What an update without linkage comes to on a database: the row is not there, the database
refuses the change, or the changed row is read again. -/
inductive UpdatesTo (r : Registry) (schema : Schema) (id : Json) (row : Object) (db : Database) :
    Except ApiError Record → Database → Prop
  | missing (none : ∀ stored ∈ db.rows schema.tableName, db.hasId schema id stored = false)
      (unchanged : updated schema row (.idIs schema id) r db = .ok (db, 0)) :
      UpdatesTo r schema id row db (.error (notFound schema id)) db
  | refused {e : StoreError}
      (some : ∃ stored ∈ db.rows schema.tableName, db.hasId schema id stored = true)
      (change : row.isEmpty = false)
      (refusal : updated schema row (.idIs schema id) r db = .error e) :
      UpdatesTo r schema id row db (.error e.toApiError) db
  | changed {db' : Database} {n : Nat} {object : Object}
      (some : ∃ stored ∈ db.rows schema.tableName, db.hasId schema id stored = true)
      (change : updated schema row (.idIs schema id) r db = .ok (db', n)) (counted : n ≠ 0)
      (same : row.isEmpty = true → db' = db)
      (read : ∃ rest, found schema (reloadPlan r schema id) r db' = .ok (object :: rest)) :
      UpdatesTo r schema id row db (.ok ⟨id, object, []⟩) db'

/-- **An update of declared attributes comes to one of these.** -/
theorem exists_updatesTo (h : Registry.assemble schemas = .ok r) (hc : r.Creatable)
    (hs : schema ∈ r.schemas) (hk : schema.Addressable) {row : Object}
    (hrow : schema.Declares row) (hdb : db.Sound r.tables) (id : Json) :
    ∃ result db', UpdatesTo r schema id row db result db' := by
  by_cases hnone : ∀ stored ∈ db.rows schema.tableName, db.hasId schema id stored = false
  · exact ⟨_, _, .missing hnone (updated_idIs_of_none h hc hdb hs hk hrow hnone)⟩
  · have hsome : ∃ stored ∈ db.rows schema.tableName, db.hasId schema id stored = true := by
      simpa using hnone
    obtain ⟨stored, hm, hid⟩ := hsome
    obtain ⟨hnothing, hleft⟩ := updated_idIs h hc hdb hs hk hrow hm hid
    cases hupdated : updated schema row (.idIs schema id) r db with
    | error e =>
      have hchange : row.isEmpty = false := by
        rw [Bool.eq_false_iff]
        intro hempty
        obtain ⟨n, hn⟩ := hnothing hempty
        cases hn.symm.trans hupdated
      exact ⟨_, _, .refused ⟨stored, hm, hid⟩ hchange hupdated⟩
    | ok out =>
      obtain ⟨db', n⟩ := out
      obtain ⟨hn, hdb', stored', hm', hid'⟩ := hleft db' n hupdated
      obtain ⟨object, rest, hfound⟩ := exists_found_reloadPlan hc hdb' hs hk hm' hid'
      have hsame : row.isEmpty = true → db' = db := by
        intro hempty
        obtain ⟨n, hn⟩ := hnothing hempty
        exact (congrArg Prod.fst (Except.ok.inj (hn.symm.trans hupdated))).symm
      exact ⟨_, _, .changed ⟨stored, hm, hid⟩ hupdated hn hsame ⟨rest, hfound⟩⟩

namespace UpdatesTo

variable {row : Object} {result : Except ApiError Record} {db' : Database}

/-- A failing update leaves the database as it was. -/
theorem settled_eq (h : UpdatesTo r schema id row db result db') : settled result db db' = db' := by
  cases h <;> rfl

/-- Without a transaction, the number of changed rows tells whether there is a row. -/
theorem ends_direct (h : UpdatesTo r schema id row s.database result db') (hr : s.registry = r)
    (hs : s.Serves .store) :
    Ends supply (Action.perform .store (.update schema row (.idIs schema id)) >>= fun changed =>
      if changed = 0 then throw (notFound schema id) else reload r .store schema id [])
      s result db' := by
  have hchanges : Changes (perform (.update schema row (.idIs schema id)))
      (updated schema row (.idIs schema id)) := changes_update _ _ _
  subst hr
  cases h with
  | missing _ hunchanged =>
    refine ends_perform_ok hs hchanges hunchanged fun s₁ hhas => ?_
    rw [if_pos rfl, ← hhas.database]
    exact ends_throw _
  | refused _ _ hrefusal => exact ends_perform_error hs hchanges hrefusal
  | changed _ hchange hn _ hread =>
    refine ends_perform_ok hs hchanges hchange fun s₁ hhas => ?_
    rw [if_neg hn]
    exact ends_reload (fun h => hhas.saved.trans (hs h)) hhas.registry hhas.database hread

/-- In a transaction, a query of its own tells whether there is a row. -/
theorem ends_within (h : UpdatesTo r schema id row s.database result db') (hr : s.registry = r) :
    Ends supply (Action.perform .transaction (.existingIds schema [id]) >>= fun found =>
      if found.isEmpty then throw (notFound schema id)
      else if row.isEmpty then reload r .transaction schema id []
      else Action.perform .transaction (.update schema row (.idIs schema id)) >>=
        fun _ => reload r .transaction schema id []) s result db' := by
  have hserves (s : Session) : s.Serves .transaction := nofun
  have hchanges : Changes (perform (.update schema row (.idIs schema id)))
      (updated schema row (.idIs schema id)) := changes_update _ _ _
  have hlooks : Changes (perform (.existingIds schema [id])) _ :=
    (computes_existingIds schema [id]).changes
  obtain ⟨found, hfound, hnil⟩ := existing_id s.database schema id
  have hexisting : (existing schema [id] s.database).map (s.database, ·) =
      .ok (s.database, found) := by
    rw [hfound]
    rfl
  have hfilled (hsome : ∃ stored ∈ s.database.rows schema.tableName,
      s.database.hasId schema id stored = true) : ¬found.isEmpty = true := by
    rw [List.isEmpty_iff, hnil]
    simpa using hsome
  subst hr
  refine ends_perform_ok (hserves s) hlooks hexisting fun s₁ hhas => ?_
  cases h with
  | missing hnone _ =>
    rw [if_pos (List.isEmpty_iff.2 (hnil.2 hnone)), ← hhas.database]
    exact ends_throw _
  | refused hsome hchange hrefusal =>
    rw [if_neg (hfilled hsome), if_neg (by rw [hchange]; nofun), ← hhas.database]
    refine ends_perform_error (hserves s₁) hchanges ?_
    rw [hhas.registry, hhas.database]
    exact hrefusal
  | changed hsome hchange _ hsame hread =>
    rw [if_neg (hfilled hsome)]
    split
    · rename_i hempty
      obtain rfl := hsame hempty
      exact ends_reload (hserves s₁) hhas.registry hhas.database hread
    · rw [← hhas.registry, ← hhas.database] at hchange
      refine ends_perform_ok (hserves s₁) hchanges hchange fun s₂ hhas₂ => ?_
      exact ends_reload (hserves s₂) (hhas₂.registry.trans hhas.registry) hhas₂.database hread

end UpdatesTo

/-- An update without linkage ends alike within and without a transaction. If it fails, it leaves
the database as it was. -/
theorem exists_ends_update (h : Registry.assemble schemas = .ok r) (hc : r.Creatable)
    (hs : schema ∈ r.schemas) (hk : schema.Addressable)
    (hrow : schema.Declares payload.attributes) (hr : payload.relationships = [])
    (hregistry : s.registry = r) (hdb : s.database.Sound r.tables) (hidle : s.saved = none)
    (supply : Nat → String) (id : Json) :
    ∃ result db, settled result s.database db = db ∧
      Ends supply (update r schema id payload) s result db ∧
      ∀ s' : Session, s'.Has s.registry s.database (some s.database) →
        Ends supply (updateIn r schema id payload) s' result db := by
  have hwithin : updateIn r schema id payload =
      liftM (checkPayloadId schema id payload) >>= fun _ =>
        Action.perform .transaction (.existingIds schema [id]) >>= fun found =>
          if found.isEmpty then throw (notFound schema id)
          else if payload.attributes.isEmpty then reload r .transaction schema id []
          else Action.perform .transaction (.update schema payload.attributes (.idIs schema id)) >>=
            fun _ => reload r .transaction schema id [] := by
    unfold updateIn
    rw [parts_of_unlinked hr]
    cases payload.attributes <;> rfl
  rw [update_of_unlinked hr, hwithin]
  cases hid : checkPayloadId schema id payload with
  | error e =>
    refine ⟨.error e, s.database, rfl, ends_throw e, fun s' hhas => ?_⟩
    rw [← hhas.database]
    exact ends_throw e
  | ok _ =>
    obtain ⟨result, db, hupdates⟩ := exists_updatesTo h hc hs hk hrow hdb id
    refine ⟨result, db, hupdates.settled_eq, ?_, fun s' hhas => ?_⟩
    · exact hupdates.ends_direct hregistry fun _ => hidle
    · rw [← hhas.database] at hupdates
      exact hupdates.ends_within (hhas.registry.trans hregistry)

/-! ## Agreement -/

/-- **Writes without linkage agree.** To run a create or an update without linkage in a transaction
of its own, which is committed if it succeeds and rolled back if it fails, has the result that the
plain create or update has, and leaves the same database. An update is told of where the name of
the primary key has no dots. -/
theorem unlinked_writes_agree {mode : WriteMode} {body : Json}
    (h : Registry.assemble schemas = .ok r) (hc : r.Creatable) (hs : schema ∈ r.schemas)
    (hpayload : Payload.ofDocument r schema mode body = .ok payload)
    (hr : payload.relationships = []) (hsound : s.Sound r) (hidle : s.saved = none)
    (supply : Nat → String) (id : Json) :
    (∃ result db, Ends supply (create r schema payload) s result db ∧
      Ends supply (Action.inTransaction (createIn r schema payload)) s result db) ∧
    (schema.Addressable → ∃ result db, Ends supply (update r schema id payload) s result db ∧
      Ends supply (Action.inTransaction (updateIn r schema id payload)) s result db) := by
  constructor
  · obtain ⟨result, db, hsettled, hends⟩ := exists_ends_createWith hc hs hsound.registry
      hsound.database supply payload.id payload.attributes
    refine ⟨result, db, ?_, ?_⟩
    · rw [create_eq_createWith hr]
      exact hends .store s (fun _ => hidle) rfl rfl rfl
    · rw [createIn_eq_createWith hr, ← hsettled]
      exact ends_inTransaction hidle fun s' hn hhas =>
        hends .transaction s' nofun hhas.registry hhas.database hn
  · intro hk
    obtain ⟨result, db, hsettled, hdirect, hwithin⟩ := exists_ends_update h hc hs hk
      (Payload.attributes_of_ofDocument hpayload) hr hsound.registry hsound.database hidle supply id
    refine ⟨result, db, hdirect, ?_⟩
    rw [← hsettled]
    exact ends_inTransaction hidle fun s' _ hhas => hwithin s' hhas

/-- A session with an empty table of nodes. -/
def emptyTree : Session where
  registry := tree
  database := ⟨[{ definition := tree.tableOf treeNode }]⟩

theorem start_tree : Session.start tree = .ok emptyTree := rfl

/-- A document with a name for a node. -/
def namingDocument : Json :=
  .obj [("data", .obj [("attributes", .obj [("name", .str "oak")]), ("type", .str "Node")])]

/-- The payload of the document. -/
def naming : Payload := { resourceType := "Node", attributes := [("name", .str "oak")] }

/-- The session after a first node was created. -/
def oneNode : Session :=
  (Session.run (fun _ => "") (create tree treeNode naming).run emptyTree).2

/-- The first node can be named, within a transaction as well as without. -/
theorem naming_agrees : Registry.assemble [treeNode] = .ok tree ∧ tree.Creatable ∧
    Payload.ofDocument tree treeNode .update namingDocument = .ok naming ∧
    naming.relationships = [] ∧ oneNode.Sound tree ∧ oneNode.saved = none ∧
    (Session.run (fun _ => "") (update tree treeNode (.int 1) naming).run oneNode).1 =
      .ok (.ok ⟨.int 1, [("id", .int 1), ("name", .str "oak"), ("upId", .null)], []⟩) ∧
    ∃ result db, Ends (fun _ => "") (update tree treeNode (.int 1) naming) oneNode result db ∧
      Ends (fun _ => "") (Action.inTransaction (updateIn tree treeNode (.int 1) naming)) oneNode
        result db := by
  have hnames : (tree.tables.map (·.name)).Nodup := by decide
  have hc : tree.Creatable := Registry.creatable_of_start hnames start_tree
  have hpayload : Payload.ofDocument tree treeNode .update namingDocument = .ok naming := by
    decide +kernel
  have hsound : oneNode.Sound tree := (sound_of_start hnames start_tree).run
    (Registry.tablesLinked assemble_node hc) _ _
  have hidle : oneNode.saved = none := by decide +kernel
  exact ⟨assemble_node, hc, hpayload, rfl, hsound, hidle, by decide +kernel,
    (unlinked_writes_agree assemble_node hc (by decide) hpayload rfl hsound hidle
      (fun _ => "") (.int 1)).2 (by decide)⟩

/-- A session with an empty table that notes and drafts share. -/
def emptyNotes : Session where
  registry := notesAndDrafts
  database := ⟨[{ definition := notes.tableOf note }]⟩

/-- A document for a draft. -/
def draftDocument : Json :=
  .obj [("data", .obj [("attributes", .obj []), ("type", .str "note")])]

/-- **Where two schemas share a table, writes disagree.** A draft is stored as a note and answered
without the key of a draft. The plain create leaves the row, the transaction takes it back. -/
theorem unlinked_creates_may_disagree :
    Registry.assemble [note, draft] = .ok notesAndDrafts ∧
    Session.start notesAndDrafts = .ok emptyNotes ∧
    Payload.ofDocument notesAndDrafts draft .create draftDocument = .ok drafting ∧
    drafting.relationships = [] ∧
    ¬∃ result db,
      Ends (fun _ => "") (create notesAndDrafts draft drafting) emptyNotes result db ∧
      Ends (fun _ => "") (Action.inTransaction (createIn notesAndDrafts draft drafting)) emptyNotes
        result db := by
  refine ⟨by decide +kernel, rfl, by decide +kernel, rfl, ?_⟩
  rintro ⟨result, db, hdirect, hwithin⟩
  have hsame := hdirect.database.trans hwithin.database.symm
  exact absurd hsame (by decide +kernel)

end Engine

end ResourceApi
