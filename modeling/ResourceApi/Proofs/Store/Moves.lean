import ResourceApi.Proofs.Store.Failures

/-!
# Transactions of one caller

One caller begins transactions, has operations performed, and commits, rolls back or drops what it
has begun (`Move`). Operations take place in the open transaction while there is one. The database may
refuse to begin and to commit, and a transaction whose commit is refused is dropped. It is assumed to
carry out every rollback: one that has given a transaction up by itself would refuse that.

**Theorem (`Session.moves_settle`).** Whatever one caller does, every move is answered. When what is
still open has been dropped, the observer was told of a begin and of one end in turn, and the database
holds what the operations make of it that were performed outside a transaction or in a committed one.

A `Ledger` is kept from the moves alone. One move keeps the session in line with it
(`Session.Follows.take`), and so does a run of moves. This needs three facts about operations: they do
not touch the saved database, tell of no beginning or end of a transaction (`Session.told_perform`),
and do the same whether or not a transaction is open (`Session.blind_perform`).
-/

namespace ResourceApi

/-- What one caller does. Beginning and committing may be refused. -/
inductive Move where
  | begin (refusal : Option StoreError)
  | perform (operation : Operation)
  | commit (refusal : Option StoreError)
  | rollback
  /-- The open transaction is left behind unfinished. -/
  | drop
  deriving Repr

namespace Move

/-- The move can be made: nobody begins a transaction within another one, and only an open one can be
ended. -/
def Fits (isOpen : Bool) : Move → Prop
  | begin _ => isOpen = false
  | perform _ => True
  | commit _ | rollback | drop => isOpen = true

/-- Whether a transaction is open after the move. -/
def leavesOpen (isOpen : Bool) : Move → Bool
  | begin refusal => refusal.isNone
  | perform _ => isOpen
  | commit _ | rollback | drop => false

/-- The moves can be made one after the other. -/
def Possible : Bool → List Move → Prop
  | _, [] => True
  | isOpen, m :: rest => m.Fits isOpen ∧ Possible (m.leavesOpen isOpen) rest

/-- The move begins a transaction. -/
def isBegun : Move → Bool
  | begin none => true
  | _ => false

/-- Makes the move. -/
def take : Move → Session.Waiting Unit
  | begin none => do
    let _ ← Session.answer .begin
  | begin (some _) => Session.wait
  | perform o => do
    let scope := if (← get).saved.isSome then .transaction else .store
    let _ ← Session.answer (.perform scope o)
  | commit refusal => do
    let _ ← ExceptT.lift (Session.commit refusal).run
  | rollback => do
    let _ ← Session.answer .rollback
  | drop => ExceptT.lift Session.drop

end Move

/-- The move commits a transaction. -/
def Move.isCommitted : Move → Bool
  | commit none => true
  | _ => false

/-- What becomes of the operations and transactions of one caller. -/
structure Ledger where
  /-- The operations outside transactions and in committed ones. -/
  kept : List Operation := []
  /-- The operations in the open transaction. -/
  held : Option (List Operation) := none
  /-- How transactions ended. -/
  ends : List TransactionStep := []

namespace Ledger

/-- Ends the open transaction, if there is one. -/
def giveUp (l : Ledger) : Ledger :=
  match l.held with
  | some _ => { l with held := none, ends := l.ends ++ [.rollback] }
  | none => l

theorem held_giveUp (l : Ledger) : l.giveUp.held = none := by
  obtain ⟨kept, _ | held, ends⟩ := l <;> rfl

/-- Enters a move. -/
def enter (l : Ledger) : Move → Ledger
  | .begin none => { l with held := some [] }
  | .begin (some _) => l
  | .perform o =>
    match l.held with
    | some held => { l with held := some (held ++ [o]) }
    | none => { l with kept := l.kept ++ [o] }
  | .commit none => ⟨l.kept ++ l.held.getD [], none, l.ends ++ [.commit]⟩
  | .commit (some _) | .rollback | .drop => l.giveUp

theorem isSome_held_enter {l : Ledger} {m : Move} (h : m.Fits l.held.isSome) :
    (l.enter m).held.isSome = m.leavesOpen l.held.isSome := by
  obtain ⟨kept, held, ends⟩ := l
  cases m with
  | begin refusal => cases refusal <;> cases held <;> simp_all [enter, Move.leavesOpen, Move.Fits]
  | commit refusal => cases refusal <;> cases held <;> rfl
  | _ => cases held <;> rfl

/-- The ledger of some moves, after which what is still open is dropped. -/
def ofMoves (moves : List Move) : Ledger := (moves.foldl enter {}).giveUp

/-- A move that ends a transaction enters how it ended. -/
theorem exists_ends_enter {l : Ledger} {m : Move} (hm : m.Fits l.held.isSome) :
    ∃ ends : List TransactionStep, (l.enter m).ends = l.ends ++ ends ∧
      (∀ e ∈ ends, e = .commit ∨ e = .rollback) ∧
      ends.length + (m.leavesOpen l.held.isSome).toNat =
        l.held.isSome.toNat + m.isBegun.toNat ∧
      ends.count .commit = m.isCommitted.toNat := by
  obtain ⟨kept, held, ends⟩ := l
  cases m with
  | begin refusal =>
    obtain rfl : held = none := by simpa [Move.Fits] using hm
    cases refusal <;> exact ⟨[], (List.append_nil _).symm, by simp, rfl, rfl⟩
  | perform o => cases held <;> exact ⟨[], (List.append_nil _).symm, by simp, rfl, rfl⟩
  | commit refusal =>
    obtain ⟨held, rfl⟩ := Option.isSome_iff_exists.1 (show held.isSome = true from hm)
    cases refusal with
    | none => exact ⟨[.commit], rfl, by simp, rfl, rfl⟩
    | some e => exact ⟨[.rollback], rfl, by simp, rfl, rfl⟩
  | rollback | drop =>
    obtain ⟨held, rfl⟩ := Option.isSome_iff_exists.1 (show held.isSome = true from hm)
    exact ⟨[.rollback], rfl, by simp, rfl, rfl⟩

/-- How transactions end is entered once for each one that is begun. -/
theorem exists_ends {l : Ledger} {moves : List Move} (hp : Move.Possible l.held.isSome moves) :
    ∃ ends : List TransactionStep, (moves.foldl enter l).giveUp.ends = l.ends ++ ends ∧
      (∀ e ∈ ends, e = .commit ∨ e = .rollback) ∧
      ends.length = l.held.isSome.toNat + moves.countP Move.isBegun ∧
      ends.count .commit = moves.countP Move.isCommitted := by
  induction moves generalizing l with
  | nil =>
    obtain ⟨kept, held, ends⟩ := l
    cases held with
    | none => exact ⟨[], (List.append_nil _).symm, by simp, rfl, rfl⟩
    | some held => exact ⟨[.rollback], rfl, by simp, rfl, rfl⟩
  | cons m rest ih =>
    obtain ⟨hm, hrest⟩ := hp
    obtain ⟨own, howns, hown, hownLength, hownCount⟩ := exists_ends_enter hm
    obtain ⟨ends, hends, hkind, hlength, hcount⟩ := ih (isSome_held_enter hm ▸ hrest)
    rw [isSome_held_enter hm] at hlength
    refine ⟨own ++ ends, ?_, fun e he => (List.mem_append.1 he).elim (hown e) (hkind e), ?_, ?_⟩
    · rw [List.foldl_cons, hends, howns, List.append_assoc]
    · have hbegun : (m :: rest).countP Move.isBegun = m.isBegun.toNat + rest.countP Move.isBegun := by
        rw [List.countP_cons, Nat.add_comm]
        cases m.isBegun <;> rfl
      rw [List.length_append, hbegun]
      omega
    · rw [List.count_append, List.countP_cons, hownCount, hcount, Nat.add_comm]
      cases m.isCommitted <;> rfl

/-- The beginnings and ends of transactions. -/
def steps (l : Ledger) : List TransactionStep :=
  l.ends.flatMap (fun e => [.begin, e]) ++ if l.held.isSome then [.begin] else []

end Ledger

/-- The beginning or end of a transaction that an event tells of. -/
def Event.step? : Event → Option TransactionStep
  | .query .. => none
  | .transaction step => some step

namespace Session

variable {α β γ : Type}

/-- The beginnings and ends of transactions that the observer was told of. -/
def told (s : Session) : List TransactionStep := s.events.filterMap Event.step?

/-! ## Operations tell of no transaction -/

/-- The work tells of no beginning or end of a transaction. -/
def Hushed (x : Work α) : Prop := ∀ s, (x.run s).2.told = s.told

theorem Hushed.bind {x : Work α} {f : α → Work β} (hx : Hushed x) (hf : ∀ a, Hushed (f a)) :
    Hushed (x >>= f) :=
  kept_bind told hx hf

theorem hushed_pure (a : α) : Hushed (pure a : Work α) := fun _ => rfl

theorem hushed_get : Hushed (get : Work Session) := fun _ => rfl

theorem hushed_mk (x : Except StoreError α) : Hushed (ExceptT.mk (pure x)) := fun _ => rfl

theorem hushed_announce (statement : Statement) : Hushed (announce statement) := by
  intro s
  show List.filterMap _ (s.events ++ [.query ..]) = _
  rw [List.filterMap_append]
  exact List.append_nil _

theorem hushed_verify (statement : Statement) (sql : String) : Hushed (verify statement sql) :=
  hushed_get.bind fun _ => (hushed_mk _).bind fun _ => (hushed_mk _).bind fun _ =>
    (hushed_mk _).bind fun _ => hushed_mk _

theorem hushed_prepare (statement : Statement) : Hushed (prepare statement) :=
  (hushed_announce _).bind fun _ => hushed_verify _ _

theorem hushed_change (f : Database → Except Violation (Database × α)) : Hushed (change f) := by
  intro s
  rw [run_change]
  cases f s.database <;> rfl

theorem hushed_execute (statement : Statement) : Hushed (execute statement) :=
  (hushed_prepare _).bind fun _ => hushed_change _

theorem hushed_find (schema : Schema) (plan : Plan) : Hushed (find schema plan) :=
  hushed_get.bind fun _ => (hushed_mk _).bind fun _ =>
    ((hushed_announce _).bind fun _ => hushed_get.bind fun _ => (hushed_mk _).bind fun _ =>
      (hushed_verify _ _).bind fun _ => hushed_pure _).bind fun _ =>
    hushed_get.bind fun _ => (hushed_mk _).bind fun _ => hushed_mk _

theorem hushed_count (schema : Schema) (filter : Predicate) : Hushed (count schema filter) :=
  hushed_get.bind fun _ => (hushed_mk _).bind fun _ => (hushed_prepare _).bind fun _ =>
    hushed_get.bind fun _ => hushed_pure _

theorem hushed_create (schema : Schema) (row : Object) : Hushed (create schema row) :=
  hushed_get.bind fun _ => (hushed_mk _).bind fun _ => (hushed_prepare _).bind fun _ =>
    (hushed_change _).bind fun _ => hushed_pure _

theorem hushed_update (schema : Schema) (row : Object) (filter : Predicate) :
    Hushed (update schema row filter) := by
  unfold update
  split
  · exact hushed_count schema filter
  · exact hushed_get.bind fun _ => (hushed_mk _).bind fun _ => hushed_execute _

theorem hushed_existingIds (schema : Schema) (ids : List Json) :
    Hushed (existingIds schema ids) := by
  unfold existingIds
  split
  · exact hushed_pure []
  · exact (hushed_prepare _).bind fun _ => hushed_get.bind fun _ => hushed_pure _

theorem hushed_mapM {f : α → Work β} (hf : ∀ a, Hushed (f a)) (xs : List α) :
    Hushed (xs.mapM f) := by
  induction xs with
  | nil => exact hushed_pure []
  | cons x xs ih =>
    rw [List.mapM_cons]
    exact (hf x).bind fun _ => ih.bind fun _ => hushed_pure _

theorem hushed_link (a : Association) (parent : Json) (ids : List Json) (replace : Bool) :
    Hushed (link a parent ids replace) := by
  rw [link, forM_eq_mapM]
  exact (hushed_mapM hushed_execute _).bind fun _ => hushed_pure ()

theorem told_perform (o : Operation) : Hushed (perform o) := by
  cases o with
  | find schema plan => exact hushed_find schema plan
  | count schema filter => exact hushed_count schema filter
  | create schema row => exact hushed_create schema row
  | bulkCreate schema rows => exact hushed_mapM (hushed_create schema) rows
  | update schema row filter => exact hushed_update schema row filter
  | destroy schema filter =>
    exact hushed_get.bind fun _ => (hushed_mk _).bind fun _ => hushed_execute _
  | addLinks a parent ids => exact hushed_link a parent ids false
  | setLinks a parent ids => exact hushed_link a parent ids true
  | existingIds schema ids => exact hushed_existingIds schema ids

/-! ## Operations do the same in a transaction -/

/-- The sessions have one registry and one database. -/
structure Alike (s t : Session) : Prop where
  registry : s.registry = t.registry
  database : s.database = t.database

/-- The work does the same in sessions that are alike. -/
def Blind (x : Work α) : Prop :=
  ∀ s t, Alike s t → (x.run s).1 = (x.run t).1 ∧ Alike (x.run s).2 (x.run t).2

theorem Blind.bind {x : Work α} {f : α → Work β} (hx : Blind x) (hf : ∀ a, Blind (f a)) :
    Blind (x >>= f) := by
  intro s t h
  rw [run_bind, run_bind]
  obtain ⟨hanswer, hafter⟩ := hx s t h
  generalize x.run s = out at hanswer hafter ⊢
  generalize x.run t = out' at hanswer hafter ⊢
  obtain ⟨_, s'⟩ := out
  obtain ⟨e | a, t'⟩ := out'
  · cases hanswer
    exact ⟨rfl, hafter⟩
  · cases hanswer
    exact hf a s' t' hafter

theorem blind_pure (a : α) : Blind (pure a : Work α) := fun _ _ h => ⟨rfl, h⟩

theorem Changes.blind {x : Work α}
    {g : Registry → Database → Except StoreError (Database × α)} (hx : Changes x g) : Blind x := by
  intro s t h
  have hs := hx.2 s
  have ht := hx.2 t
  have hregistry := ((hx.1 s).1.trans h.registry).trans (hx.1 t).1.symm
  rw [h.registry, h.database] at hs
  cases hg : g t.registry t.database with
  | error e =>
    rw [hg] at hs ht
    exact ⟨hs.1.trans ht.1.symm, hregistry, hs.2.trans ht.2.symm⟩
  | ok out =>
    rw [hg] at hs ht
    exact ⟨hs.1.trans ht.1.symm, hregistry, hs.2.trans ht.2.symm⟩

theorem blind_mapM {f : α → Work β} (hf : ∀ a, Blind (f a)) (xs : List α) : Blind (xs.mapM f) := by
  induction xs with
  | nil => exact blind_pure []
  | cons x xs ih =>
    rw [List.mapM_cons]
    exact (hf x).bind fun _ => ih.bind fun _ => blind_pure _

theorem blind_link (a : Association) (parent : Json) (ids : List Json) (replace : Bool) :
    Blind (link a parent ids replace) := by
  rw [link, forM_eq_mapM]
  exact (blind_mapM (fun statement => (changes_execute statement).blind) _).bind fun _ =>
    blind_pure ()

theorem blind_perform (o : Operation) : Blind (perform o) := by
  cases o with
  | find schema plan => exact (computes_find schema plan).changes.blind
  | count schema filter => exact (computes_count schema filter).changes.blind
  | create schema row => exact (changes_create schema row).blind
  | bulkCreate schema rows => exact blind_mapM (fun row => (changes_create schema row).blind) rows
  | update schema row filter => exact (changes_update schema row filter).blind
  | destroy schema filter => exact (changes_destroy schema filter).blind
  | addLinks a parent ids => exact blind_link a parent ids false
  | setLinks a parent ids => exact blind_link a parent ids true
  | existingIds schema ids => exact (computes_existingIds schema ids).changes.blind

/-! ## Moves -/

/-- The database that some operations make of another one. -/
def applied (r : Registry) (db : Database) (operations : List Operation) : Database :=
  operations.foldl (fun db o => ((perform o).run { registry := r, database := db }).2.database) db

theorem database_perform {r : Registry} {db : Database} {operations : List Operation} {s : Session}
    (hr : s.registry = r) (hs : s.database = applied r db operations) (o : Operation) :
    ((perform o).run s).2.database = applied r db (operations ++ [o]) := by
  rw [applied, List.foldl_append]
  exact (blind_perform o s _ ⟨hr, hs⟩).2.database

/-- The session is in line with a ledger: it began with a database and with what was told then. -/
structure Follows (r : Registry) (db : Database) (before : List TransactionStep) (l : Ledger)
    (s : Session) : Prop where
  registry : s.registry = r
  saved : s.saved = l.held.map fun _ => applied r db l.kept
  database : s.database = applied r db (l.kept ++ l.held.getD [])
  told : s.told = before ++ l.steps

namespace Follows

variable {r : Registry} {db : Database} {before : List TransactionStep} {l : Ledger} {s : Session}

theorem isSome_saved (h : Follows r db before l s) : s.saved.isSome = l.held.isSome := by
  rw [h.saved, Option.isSome_map]

/-- Giving up the open transaction, if there is one. -/
theorem giveUp (h : Follows r db before l s) : Follows r db before l.giveUp (drop.run s).2 := by
  have hsaved := h.saved
  have htold := h.told
  rw [drop_eq, h.isSome_saved]
  obtain ⟨kept, held, ends⟩ := l
  cases held with
  | none => exact h
  | some held =>
    refine ⟨h.registry, rfl, ?_, ?_⟩
    · show s.saved.getD s.database = applied r db (kept ++ [])
      rw [hsaved, List.append_nil]
      rfl
    · show List.filterMap _ (s.events ++ [.transaction .rollback]) = _
      rw [List.filterMap_append, ← Session.told, htold]
      simp [Ledger.giveUp, Ledger.steps, Event.step?]

/-- Operations are performed where the caller is. -/
theorem run_perform_within (o : Operation) (s : Session) :
    (Move.perform o).take.run s = (.ok (), ((Session.perform o).run s).2) := by
  show ((answer (.perform (if s.saved.isSome then .transaction else .store) o) >>=
    fun _ => pure ()).run s) = _
  rw [run_bind]
  cases hs : s.saved with
  | none =>
    rw [Option.isSome_none, if_neg Bool.false_ne_true, answer, run_waiting, hs]
    rfl
  | some db => rfl

/-- **One move** keeps a session in line with the ledger. -/
theorem take (h : Follows r db before l s) {m : Move} (hm : m.Fits l.held.isSome) :
    ∃ s', m.take.run s = (.ok (), s') ∧ Follows r db before (l.enter m) s' := by
  have hopen := h.isSome_saved
  have hsaved := h.saved
  have hdatabase := h.database
  have htold := h.told
  -- The three moves that give a transaction up are one.
  have hgiveUp (hheld : l.held.isSome = true) :
      Follows r db before l.giveUp (rollback.run s).2 := by
    have hdrop := h.giveUp
    rwa [drop_eq, hopen, if_pos hheld] at hdrop
  cases m with
  | begin refusal =>
    have hheld : l.held = none := by simpa [Move.Fits] using hm
    obtain ⟨kept, held, ends⟩ := l
    obtain rfl : held = none := hheld
    cases refusal with
    | some e =>
      refine ⟨s, ?_, h⟩
      show wait.run s = _
      rw [run_wait, hopen]
      rfl
    | none =>
      have hrun : (answer .begin).run s = (.ok (.ok ()),
          { s with saved := some s.database, events := s.events ++ [.transaction .begin] }) := by
        rw [answer, run_waiting, hopen]
        rfl
      refine ⟨{ s with saved := some s.database, events := s.events ++ [.transaction .begin] },
        ?_, h.registry, ?_, ?_, ?_⟩
      · show ((answer .begin >>= fun _ => pure ()).run s) = _
        rw [run_bind, hrun]
        rfl
      · rw [hdatabase]
        simp [Ledger.enter]
      · rw [hdatabase]
        rfl
      · show List.filterMap _ (s.events ++ [.transaction .begin]) = _
        rw [List.filterMap_append, ← Session.told, htold]
        simp [Ledger.enter, Ledger.steps, Event.step?]
  | perform o =>
    have hframed := framed_perform o s
    have hafter := database_perform h.registry hdatabase o
    refine ⟨_, run_perform_within o s, ?_⟩
    obtain ⟨kept, held, ends⟩ := l
    cases held with
    | none =>
      exact ⟨hframed.1.trans h.registry, hframed.2.trans hsaved, by simpa [Ledger.enter] using hafter,
        (told_perform o s).trans htold⟩
    | some held =>
      exact ⟨hframed.1.trans h.registry, hframed.2.trans hsaved, by simpa [Ledger.enter] using hafter,
        (told_perform o s).trans htold⟩
  | commit refusal =>
    cases refusal with
    | some e => exact ⟨_, rfl, hgiveUp hm⟩
    | none =>
      refine ⟨_, rfl, h.registry, rfl, ?_, ?_⟩
      · show s.database = _
        rw [hdatabase]
        simp [Ledger.enter]
      · show List.filterMap _ (s.events ++ [.transaction .commit]) = _
        rw [List.filterMap_append, ← Session.told, htold]
        have hheld : l.held.isSome = true := hm
        simp [Ledger.enter, Ledger.steps, Event.step?, hheld]
  | rollback => exact ⟨_, rfl, hgiveUp hm⟩
  | drop => exact ⟨_, rfl, h.giveUp⟩

/-- **A run of moves** keeps a session in line with the ledger. -/
theorem run {moves : List Move} (h : Follows r db before l s)
    (hp : Move.Possible l.held.isSome moves) :
    ∃ s', (moves.forM Move.take).run s = (.ok (), s') ∧
      Follows r db before (moves.foldl Ledger.enter l) s' := by
  induction moves generalizing l s with
  | nil => exact ⟨s, rfl, h⟩
  | cons m rest ih =>
    obtain ⟨hm, hrest⟩ := hp
    obtain ⟨mid, hmid, hfollows⟩ := h.take hm
    rw [← Ledger.isSome_held_enter hm] at hrest
    obtain ⟨s', hs', hafter⟩ := ih hfollows hrest
    refine ⟨s', ?_, hafter⟩
    show ((m.take >>= fun _ => rest.forM Move.take).run s) = _
    rw [run_bind, hmid]
    exact hs'

end Follows

/-- **The moves of one caller.** Each of them is answered. When what is still open has been dropped,
beginnings and ends of transactions have been told of in turn, as many as were begun and each commit
that was carried out among them; and the database is what the operations that count make of it. -/
theorem moves_settle {s : Session} (hs : s.saved = none) {moves : List Move}
    (hp : Move.Possible false moves) :
    ∃ (s' : Session) (ends : List TransactionStep),
      (do moves.forM Move.take; Move.drop.take : Waiting Unit).run s = (.ok (), s') ∧
      s'.saved = none ∧
      s'.told = s.told ++ ends.flatMap (fun e => [.begin, e]) ∧
      (∀ e ∈ ends, e = .commit ∨ e = .rollback) ∧
      ends.length = moves.countP Move.isBegun ∧
      ends.count .commit = moves.countP Move.isCommitted ∧
      s'.database = applied s.registry s.database (Ledger.ofMoves moves).kept := by
  have hstart : Follows s.registry s.database s.told {} s :=
    ⟨rfl, hs, rfl, by simp [Ledger.steps]⟩
  obtain ⟨mid, hmid, hfollows⟩ := hstart.run hp
  obtain ⟨ends, hends, hkind, hlength, hcount⟩ := Ledger.exists_ends (l := {}) hp
  have hend := hfollows.giveUp
  have hheld : (moves.foldl Ledger.enter {}).giveUp.held = none := Ledger.held_giveUp _
  have hsaved := hend.saved
  have hdatabase := hend.database
  have htold := hend.told
  rw [hheld] at hsaved hdatabase
  refine ⟨(drop.run mid).2, ends, ?_, hsaved, ?_, hkind, ?_, hcount, ?_⟩
  · rw [run_bind, hmid]
    rfl
  · rw [htold, Ledger.steps, hheld, hends]
    simp
  · simpa using hlength
  · rw [hdatabase, Ledger.ofMoves]
    simp

/-- Creates a course. -/
def createCourse (id : String) : Move := .perform (.create course [("id", .str id)])

/-- A course outside a transaction, and others in transactions that end in every way there is. The
last one is left open. -/
def courseMoves : List Move :=
  [createCourse "c", .begin none, createCourse "d", .commit (some (.database "database is locked")),
    .begin none, createCourse "e", .drop, .begin none, createCourse "f", .commit none,
    .begin (some (.database "database is locked")), .begin none, createCourse "g", .rollback,
    .begin none, createCourse "h"]

/-- Five transactions are begun and one is committed: of its courses and the one outside are kept. -/
theorem courseMoves_settle : enrolled.saved = none ∧ Move.Possible false courseMoves ∧
    ∃ (s' : Session) (ends : List TransactionStep),
      (do courseMoves.forM Move.take; Move.drop.take : Waiting Unit).run enrolled = (.ok (), s') ∧
      s'.told = ends.flatMap (fun e => [.begin, e]) ∧ ends.length = 5 ∧ ends.count .commit = 1 ∧
      s'.database.rows "course" =
        [[("id", .text "b")], [("id", .text "c")], [("id", .text "f")]] := by
  have hp : Move.Possible false courseMoves := by
    simp [courseMoves, createCourse, Move.Possible, Move.Fits, Move.leavesOpen]
  obtain ⟨s', ends, hrun, -, htold, -, hlength, hcount, hdatabase⟩ :=
    moves_settle (s := enrolled) rfl hp
  have hrows : (applied enrolled.registry enrolled.database (Ledger.ofMoves courseMoves).kept).rows
      "course" = [[("id", .text "b")], [("id", .text "c")], [("id", .text "f")]] := by
    decide +kernel
  exact ⟨rfl, hp, s', ends, hrun, htold, hlength, hcount, hdatabase ▸ hrows⟩

end Session

end ResourceApi
