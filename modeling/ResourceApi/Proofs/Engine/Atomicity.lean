import ResourceApi.Proofs.Engine.Transaction
import ResourceApi.Proofs.Store.Session

/-!
# What failing writes leave behind

**Theorem (`failed_writes_committed`).** On every transactional store, a write with linkage and a
deletion that end with an error leave the committed state as it was before. A write without linkage
does so too, unless its one change was carried out and its answer could not be made up: the created
row came back without its primary key (`KeylessCreate`), or the changed row could not be read again
(`UnreadUpdate`). The change stays then, and nothing else has changed.

A write without linkage is a single operation that needs no transaction, so there is nothing to
take back once it has been carried out; `failed_writes_may_stay` has one of each kind on a
database.
-/

namespace ResourceApi

variable {α State Content : Type} {store : Store State Content} {s s' : State}

/-- Work in a transaction of its own leaves nothing behind when it fails. -/
theorem Transacted.committed_of_error {work : Action α} {t : List Exchange} {e : ApiError}
    (h : Transacted work t (.error e)) (hw : work.Within .transaction)
    (law : store.Transactional) (hf : store.Follows s t s') :
    store.committed s' = store.committed s := by
  -- after the work, the transaction is open and nothing has been committed
  have worked {body : List Exchange} {outcome : Except ApiError α} {last : Exchange}
      (hr : work.Runs body outcome)
      (hf : store.Follows s (⟨.begin, .ok ()⟩ :: (body ++ [last])) s') :
      ∃ s₁, store.committed s₁ = store.committed s ∧ store.isOpen s₁ ∧
        store.answers s₁ last.call last.reply s' := by
    obtain ⟨s₀, hb, hf⟩ := Store.follows_cons.1 hf
    obtain ⟨s₁, hbody, hlast⟩ := Store.follows_append.1 hf
    obtain ⟨hc₀, ho₀⟩ := law.begin hb
    obtain ⟨hc₁, ho₁⟩ := law.committed_within hbody (ho₀ rfl) (hw _ _ hr)
    exact ⟨s₁, hc₁.trans hc₀, ho₁, Store.follows_singleton.1 hlast⟩
  cases h with
  | refused e => exact (law.begin (Store.follows_singleton.1 hf)).1
  | notCommitted e hr =>
    obtain ⟨s₁, hc, ho, hlast⟩ := worked hr hf
    exact (law.commit ho hlast).trans hc
  | rolledBack reply hr =>
    obtain ⟨s₁, hc, ho, hlast⟩ := worked hr hf
    exact (law.rollback ho hlast).trans hc

namespace Engine

open ResourceApi.Action

variable {r : Registry} {schema : Schema} {id : Json} {payload : Payload} {t : List Exchange}
  {e : ApiError}

/-- A single operation that leaves the rows as they are. -/
theorem committed_of_leavesRows (law : store.Transactional) {o : Operation}
    {reply : Except StoreError o.Answer} (ho : o.LeavesRows reply)
    (hf : store.Follows s [⟨.perform .store o, reply⟩] s') :
    store.committed s' = store.committed s :=
  law.perform ho (Store.follows_singleton.1 hf)

/-! ## Writes without linkage -/

/-- The only call is a create, and the stored row is answered without its primary key. -/
def KeylessCreate (schema : Schema) (t : List Exchange) : Prop :=
  ∃ row stored, t = [⟨.perform .store (.create schema row), .ok stored⟩] ∧
    stored.get? schema.idField = none

/-- Rows are changed, and the row of the identifier is then not read. -/
def UnreadUpdate (r : Registry) (schema : Schema) (id : Json) (t : List Exchange) : Prop :=
  ∃ row n reply, n ≠ 0 ∧ (∀ stored rest, reply ≠ .ok (stored :: rest)) ∧
    t = [⟨.perform .store (.update schema row (.idIs schema id)), .ok n⟩,
      ⟨.perform .store (.find schema (reloadPlan r schema id)), reply⟩]

/-- An identifier is filled in without a call. -/
theorem runs_assignId {given : Option Json} {row : Object} {result : Except ApiError Object}
    (h : (assignId schema given row).Runs t result) : t = [] ∧ ∃ row', result = .ok row' := by
  unfold assignId fillId at h
  split at h
  · rcases runs_bind.1 h with ⟨e, hd, -⟩ | ⟨t, u, drawn, rfl, hd, hp⟩
    · obtain ⟨_, -, hd⟩ := runs_lift.1 hd
      cases hd
    · obtain ⟨_, hd, -⟩ := runs_lift.1 hd
      obtain ⟨rfl, rfl⟩ := runs_pure.1 hp
      exact ⟨by simpa using Program.runs_drawn.1 hd, _, rfl⟩
  · obtain ⟨rfl, rfl⟩ := runs_pure.1 h
    exact ⟨rfl, _, rfl⟩

theorem runs_reload_error {scope : Scope} {related : Object}
    (h : (reload r scope schema id related).Runs t (.error e)) :
    ∃ reply, t = [⟨.perform scope (.find schema (reloadPlan r schema id)), reply⟩] ∧
      ∀ stored rest, reply ≠ .ok (stored :: rest) := by
  unfold reload findOne at h
  rcases runs_bind.1 h with ⟨e', hr, -⟩ | ⟨t, u, row, rfl, -, hp⟩
  · obtain ⟨reply | rows, u, rfl, hu⟩ := runs_perform_bind.1 hr
    · obtain ⟨rfl, -⟩ := hu
      exact ⟨_, rfl, nofun⟩
    · cases rows with
      | nil =>
        obtain ⟨rfl, -⟩ := runs_throw.1 hu
        exact ⟨_, rfl, nofun⟩
      | cons row rows => cases (runs_pure.1 hu).2
  · cases (runs_pure.1 hp).2

/-- How a create without linkage can fail. -/
theorem runs_create_error (hr : payload.relationships = [])
    (h : (create r schema payload).Runs t (.error e)) :
    t = [] ∨ (∃ row e', t = [⟨.perform .store (.create schema row), .error e'⟩]) ∨
      KeylessCreate schema t := by
  unfold create at h
  replace h := runs_liftM_bind.1 h
  cases hp : parts r schema payload with
  | error e =>
    rw [hp] at h
    exact .inl h.1
  | ok p =>
    rw [hp] at h
    dsimp only at h
    rw [if_neg (by simp [hasRelationships_parts hp, hr])] at h
    rcases runs_bind.1 h with ⟨e', ha, -⟩ | ⟨_, u, row, rfl, ha, hu⟩
    · obtain ⟨-, _, ha⟩ := runs_assignId ha
      cases ha
    obtain ⟨rfl, -⟩ := runs_assignId ha
    obtain ⟨reply | stored, v, rfl, hv⟩ := runs_perform_bind.1 hu
    · obtain ⟨rfl, -⟩ := hv
      exact .inr (.inl ⟨row, reply, rfl⟩)
    · replace hv := runs_liftM_bind.1 hv
      unfold primaryKey at hv
      cases hk : stored.get? schema.idField with
      | some key =>
        rw [hk] at hv
        cases (runs_pure.1 hv).2
      | none =>
        rw [hk] at hv
        obtain ⟨rfl, -⟩ := hv
        exact .inr (.inr ⟨row, stored, rfl, hk⟩)

/-- How an update without linkage can fail. -/
theorem runs_update_error (hr : payload.relationships = [])
    (h : (update r schema id payload).Runs t (.error e)) :
    t = [] ∨ (∃ row reply, Operation.LeavesRows (.update schema row (.idIs schema id)) reply ∧
        t = [⟨.perform .store (.update schema row (.idIs schema id)), reply⟩]) ∨
      UnreadUpdate r schema id t := by
  unfold update at h
  replace h := runs_liftM_bind.1 h
  cases hi : checkPayloadId schema id payload with
  | error e =>
    rw [hi] at h
    exact .inl h.1
  | ok _ =>
    rw [hi] at h
    replace h := runs_liftM_bind.1 h
    cases hp : parts r schema payload with
    | error e =>
      rw [hp] at h
      exact .inl h.1
    | ok p =>
      rw [hp] at h
      dsimp only at h
      rw [if_neg (by simp [hasRelationships_parts hp, hr])] at h
      obtain ⟨reply | n, u, rfl, hu⟩ := runs_perform_bind.1 h
      · obtain ⟨rfl, -⟩ := hu
        exact .inr (.inl ⟨p.attributes, .error reply, .inl ⟨reply, rfl⟩, rfl⟩)
      dsimp only at hu
      by_cases hn : n = 0
      · rw [if_pos hn] at hu
        rcases runs_bind.1 hu with ⟨e', ht, -⟩ | ⟨_, v, _, rfl, ht, -⟩
        · obtain ⟨rfl, -⟩ := runs_throw.1 ht
          exact .inr (.inl ⟨p.attributes, .ok n, .inr (by rw [hn]), rfl⟩)
        · cases (runs_throw.1 ht).2
      · rw [if_neg hn] at hu
        obtain ⟨reply, rfl, hread⟩ := runs_reload_error hu
        exact .inr (.inr ⟨p.attributes, n, reply, hn, hread, rfl⟩)

/-! ## Failing writes -/

theorem committed_of_create_error (law : store.Transactional) (hf : store.Follows s t s')
    (h : (create r schema payload).Runs t (.error e)) :
    store.committed s' = store.committed s ∨
      payload.relationships = [] ∧ KeylessCreate schema t ∧ store.KeepsFirst s t s' := by
  by_cases hr : payload.relationships = []
  · rcases runs_create_error hr h with rfl | ⟨row, e', rfl⟩ | hk
    · exact .inl (congrArg _ (Store.follows_nil.1 hf))
    · have ho : Operation.LeavesRows (.create schema row) (.error e') := ⟨e', rfl⟩
      exact .inl (committed_of_leavesRows law ho hf)
    · obtain ⟨row, stored, rfl, hnone⟩ := hk
      exact .inr ⟨hr, ⟨row, stored, rfl, hnone⟩, _, [], s', rfl, Store.follows_singleton.1 hf, rfl⟩
  · refine .inl ?_
    cases hp : parts r schema payload with
    | error e' =>
      unfold create at h
      rw [hp] at h
      obtain ⟨rfl, -⟩ := runs_liftM_bind.1 h
      exact congrArg _ (Store.follows_nil.1 hf)
    | ok p =>
      rw [create_eq_inTransaction r schema payload hp hr] at h
      exact (runs_inTransaction.1 h).committed_of_error (within_createWith _ _ p) law hf

theorem committed_of_update_error (law : store.Transactional) (hf : store.Follows s t s')
    (h : (update r schema id payload).Runs t (.error e)) :
    store.committed s' = store.committed s ∨
      payload.relationships = [] ∧ UnreadUpdate r schema id t ∧ store.KeepsFirst s t s' := by
  by_cases hr : payload.relationships = []
  · rcases runs_update_error hr h with rfl | ⟨row, reply, ho, rfl⟩ | hu
    · exact .inl (congrArg _ (Store.follows_nil.1 hf))
    · exact .inl (committed_of_leavesRows law ho hf)
    · obtain ⟨row, n, reply, hn, hread, rfl⟩ := hu
      obtain ⟨s₁, hw, hf⟩ := Store.follows_cons.1 hf
      have ho : Operation.LeavesRows (.find schema (reloadPlan r schema id)) reply := trivial
      exact .inr ⟨hr, ⟨row, n, reply, hn, hread, rfl⟩, _, _, s₁, rfl, hw,
        committed_of_leavesRows law ho hf⟩
  · refine .inl ?_
    have none {t : List Exchange} (hf : store.Follows s t s') (ht : t = []) :
        store.committed s' = store.committed s := by
      subst ht
      exact congrArg _ (Store.follows_nil.1 hf)
    cases hi : checkPayloadId schema id payload with
    | error e' =>
      unfold update at h
      rw [hi] at h
      exact none hf (runs_liftM_bind.1 h).1
    | ok _ =>
      cases hp : parts r schema payload with
      | error e' =>
        unfold update at h
        rw [hi, hp] at h
        exact none hf (runs_liftM_bind.1 (runs_liftM_bind.1 h)).1
      | ok p =>
        rw [update_eq_inTransaction r schema id payload hi hp hr] at h
        exact (runs_inTransaction.1 h).committed_of_error (within_updateWith _ _ _ p) law hf

theorem committed_of_destroy_error (law : store.Transactional) (hf : store.Follows s t s')
    (h : (destroy .store schema id).Runs t (.error e)) :
    store.committed s' = store.committed s := by
  unfold destroy at h
  obtain ⟨reply | n, u, rfl, hu⟩ := runs_perform_bind.1 h
  · obtain ⟨rfl, -⟩ := hu
    have ho : Operation.LeavesRows (.destroy schema (.idIs schema id)) (.error reply) :=
      .inl ⟨reply, rfl⟩
    exact committed_of_leavesRows law ho hf
  · by_cases hn : n = 0
    · subst hn
      obtain ⟨rfl, -⟩ := runs_throw.1 hu
      have ho : Operation.LeavesRows (.destroy schema (.idIs schema id)) (.ok 0) := .inr rfl
      exact committed_of_leavesRows law ho hf
    · dsimp only at hu
      rw [if_neg hn] at hu
      cases (runs_pure.1 hu).2

/-- **Failing writes.** A write that ends with an error leaves the committed state as it was, but
for two cases without linkage: a created row that is answered without its primary key, and a changed
row that cannot be read again. There the one change stays, and there is no other. -/
theorem failed_writes_committed (r : Registry) (schema : Schema) (id : Json) (payload : Payload)
    (law : store.Transactional) (hf : store.Follows s t s') :
    ((create r schema payload).Runs t (.error e) →
      store.committed s' = store.committed s ∨
        payload.relationships = [] ∧ KeylessCreate schema t ∧ store.KeepsFirst s t s') ∧
    ((update r schema id payload).Runs t (.error e) →
      store.committed s' = store.committed s ∨
        payload.relationships = [] ∧ UnreadUpdate r schema id t ∧ store.KeepsFirst s t s') ∧
    ((destroy .store schema id).Runs t (.error e) → store.committed s' = store.committed s) :=
  ⟨committed_of_create_error law hf, committed_of_update_error law hf,
    committed_of_destroy_error law hf⟩

/-! ## A database of notes -/

/-- Notes with numbered keys. -/
def note : Schema := { name := "Note", idType := .integer }

/-- The registry of notes. -/
def notes : Registry := ⟨[note], [], []⟩

/-- A session with one note, of key 1. -/
def noteSession : Session where
  registry := notes
  database := ⟨[{ definition := notes.tableOf note, rows := [[("id", .integer 1)]], lastKey := 1 }]⟩

/-- A payload that gives a note another key. -/
def renumbering : Payload := { resourceType := "Note", attributes := [("id", .int 2)] }

/-- A note that is not there is not deleted, and nothing changes. -/
theorem destroy_missing_note : ∃ t s',
    (destroy .store note (.int 7)).Runs t (.error (notFound note (.int 7))) ∧
    (Session.asStore notes).Follows noteSession.view t s' ∧
    (Session.asStore notes).committed s' =
      (Session.asStore notes).committed noteSession.view := by
  have hrun : Session.run (fun _ => "") (destroy .store note (.int 7)) noteSession =
      (.ok (.error (notFound note (.int 7))),
        (Session.run (fun _ => "") (destroy .store note (.int 7)) noteSession).2) :=
    Prod.ext (by decide +kernel) rfl
  obtain ⟨t, hr, hf⟩ := Session.exists_follows rfl hrun
  exact ⟨t, _, hr, hf, (failed_writes_committed notes note (.int 7) renumbering
    (Session.transactional notes) hf).2.2 hr⟩

/-- A schema whose rows are kept in the table of notes, but which calls their key otherwise. -/
def draft : Schema := { name := "note", idField := "key", idType := .integer }

/-- The registry of notes and drafts. -/
def notesAndDrafts : Registry := ⟨[note, draft], [], []⟩

/-- A payload for a draft. -/
def drafting : Payload := { resourceType := "note", attributes := [] }

/-- A note that is given another key is not found under the old one, so the update fails and the
note stays changed. A draft is stored as a note, without the key of a draft, so the create fails and
the row stays. -/
theorem failed_writes_may_stay :
    ((Session.asStore notes).Transactional ∧ ∃ t s',
      (update notes note (.int 1) renumbering).Runs t (.error (notFound note (.int 1))) ∧
      (Session.asStore notes).Follows noteSession.view t s' ∧
      (Session.asStore notes).committed s' ≠ (Session.asStore notes).committed noteSession.view) ∧
    (Session.asStore notesAndDrafts).Transactional ∧ ∃ t s',
      (create notesAndDrafts draft drafting).Runs t (.error (missingId draft)) ∧
      (Session.asStore notesAndDrafts).Follows noteSession.view t s' ∧
      (Session.asStore notesAndDrafts).committed s' ≠
        (Session.asStore notesAndDrafts).committed noteSession.view := by
  refine ⟨⟨Session.transactional _, ?_⟩, Session.transactional _, ?_⟩
  · have hrun : Session.run (fun _ => "") (update notes note (.int 1) renumbering) noteSession =
        (.ok (.error (notFound note (.int 1))),
          (Session.run (fun _ => "") (update notes note (.int 1) renumbering) noteSession).2) :=
      Prod.ext (by decide +kernel) rfl
    obtain ⟨t, hr, hf⟩ := Session.exists_follows rfl hrun
    exact ⟨t, _, hr, hf, fun h => absurd (congrFun h "note") (by decide +kernel)⟩
  · let session : Session := { noteSession with registry := notesAndDrafts }
    have hrun : Session.run (fun _ => "") (create notesAndDrafts draft drafting) session =
        (.ok (.error (missingId draft)),
          (Session.run (fun _ => "") (create notesAndDrafts draft drafting) session).2) :=
      Prod.ext (by decide +kernel) rfl
    obtain ⟨t, hr, hf⟩ := Session.exists_follows rfl hrun
    exact ⟨t, _, hr, hf, fun h => absurd (congrFun h "note") (by decide +kernel)⟩

end Engine

end ResourceApi
