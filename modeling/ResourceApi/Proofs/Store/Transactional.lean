import ResourceApi.Proofs.Store.Run

/-!
# Transactional stores

A `Store` is what a caller relies on: its states, what is committed in each of them, and the replies
that it may give to a call. `Store.Follows` takes it along the exchanges of a run.

A store is *transactional* (`Store.Transactional`) when a failing operation, and one that is
answered with no row to change, has no effect on it, and when what is done in a transaction becomes
visible only by a successful commit. The laws speak of single operations only: several statements
that are not in a transaction may well be cut short.

**Theorem (`Store.Transactional.committed_within`).** Whatever the exchanges in a transaction, the
committed state is still the one from before, and the transaction is still open.
-/

namespace ResourceApi

/-- Whether an operation, answered so, has nothing to change in the store. -/
def Operation.LeavesRows : (o : Operation) → Except StoreError o.Answer → Prop
  | .find .., _ | .count .., _ | .existingIds .., _ => True
  | .create .., reply => ∃ e, reply = .error e
  | .update .., reply | .destroy .., reply => (∃ e, reply = .error e) ∨ reply = .ok 0
  | .bulkCreate .., _ | .addLinks .., _ | .setLinks .., _ => False

/-- A store, seen from outside. -/
structure Store (State Content : Type) where
  /-- What others see. -/
  committed : State → Content
  /-- Whether a transaction is open. -/
  isOpen : State → Prop
  /-- The store may answer the call so, and is in the second state then. -/
  answers : State → (c : Call) → c.Reply → State → Prop

namespace Store

variable {State Content : Type} {store : Store State Content} {s s' s'' : State}

/-- The exchanges take the store from one state to another. -/
inductive Follows (store : Store State Content) : State → List Exchange → State → Prop
  | nil (s : State) : Follows store s [] s
  | cons {s s' s'' : State} {e : Exchange} {t : List Exchange} :
      store.answers s e.call e.reply s' → Follows store s' t s'' → Follows store s (e :: t) s''

@[simp] theorem follows_nil : store.Follows s [] s' ↔ s' = s := by
  constructor
  · intro h
    cases h
    rfl
  · rintro rfl
    exact .nil s'

theorem follows_cons {e : Exchange} {t : List Exchange} :
    store.Follows s (e :: t) s'' ↔
      ∃ s', store.answers s e.call e.reply s' ∧ store.Follows s' t s'' := by
  constructor
  · intro h
    cases h with
    | cons h ht => exact ⟨_, h, ht⟩
  · rintro ⟨s', h, ht⟩
    exact .cons h ht

@[simp] theorem follows_singleton {e : Exchange} :
    store.Follows s [e] s' ↔ store.answers s e.call e.reply s' := by
  simp [follows_cons]

theorem follows_append {t u : List Exchange} :
    store.Follows s (t ++ u) s'' ↔ ∃ s', store.Follows s t s' ∧ store.Follows s' u s'' := by
  induction t generalizing s with
  | nil => simp
  | cons e t ih =>
    simp only [List.cons_append, follows_cons, ih]
    constructor
    · rintro ⟨s₁, h, s₂, ht, hu⟩
      exact ⟨s₂, ⟨s₁, h, ht⟩, hu⟩
    · rintro ⟨s₂, ⟨s₁, h, ht⟩, hu⟩
      exact ⟨s₁, h, s₂, ht, hu⟩

/-- After the exchanges, what the first of them did is committed, and nothing else. -/
def KeepsFirst (store : Store State Content) (s : State) (t : List Exchange) (s' : State) : Prop :=
  ∃ e u s₁, t = e :: u ∧ store.answers s e.call e.reply s₁ ∧
    store.committed s' = store.committed s₁

/-- The laws of transactions. -/
structure Transactional {State Content : Type} (store : Store State Content) : Prop where
  /-- An operation with nothing to change leaves what is committed. -/
  perform {s s' : State} {o : Operation} {reply : Except StoreError o.Answer} :
    o.LeavesRows reply → store.answers s (.perform .store o) reply s' →
      store.committed s' = store.committed s
  /-- To begin a transaction commits nothing. -/
  begin {s s' : State} {reply : Call.begin.Reply} : store.answers s .begin reply s' →
    store.committed s' = store.committed s ∧ (reply = .ok () → store.isOpen s')
  /-- What is done in a transaction is not seen. -/
  transaction {s s' : State} {o : Operation} {reply : Except StoreError o.Answer} :
    store.isOpen s → store.answers s (.perform .transaction o) reply s' →
      store.committed s' = store.committed s ∧ store.isOpen s'
  /-- A failing commit commits nothing. -/
  commit {s s' : State} {e : StoreError} :
    store.isOpen s → store.answers s .commit (.error e) s' → store.committed s' = store.committed s
  /-- A rollback commits nothing, even if it fails. -/
  rollback {s s' : State} {reply : Call.rollback.Reply} :
    store.isOpen s → store.answers s .rollback reply s' → store.committed s' = store.committed s

/-- **Work in a transaction is not seen.** -/
theorem Transactional.committed_within (law : store.Transactional) {t : List Exchange}
    (hf : store.Follows s t s') (hs : store.isOpen s)
    (ht : ∀ e ∈ t, e.IsIn .transaction) :
    store.committed s' = store.committed s ∧ store.isOpen s' := by
  induction hf with
  | nil s => exact ⟨rfl, hs⟩
  | @cons s s₁ s₂ e t he _ ih =>
    obtain ⟨call, reply⟩ := e
    obtain ⟨o, rfl⟩ : ∃ o, call = .perform .transaction o :=
      ht ⟨call, reply⟩ (by simp)
    obtain ⟨hc, ho⟩ := law.transaction hs he
    obtain ⟨hc', ho'⟩ := ih ho fun e h => ht e (by simp [h])
    exact ⟨hc'.trans hc, ho'⟩

end Store

end ResourceApi
