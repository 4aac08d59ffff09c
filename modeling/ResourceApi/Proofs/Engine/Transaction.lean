import ResourceApi.Proofs.Engine.Calls
import ResourceApi.Proofs.Schema.Assembly

/-!
# Transactions of writes

**Theorem (`create_and_update_transactions`).** A create or update with linkage that passes the
checks of its payload runs in a transaction of its own: it begins one first, works in it, and ends
it by its last call, with a commit when the work succeeded and with a rollback when it failed. A
write without linkage, and a write in a transaction of the caller, never begins or ends one.

`Transacted work t result` spells out the four ways in which work in a transaction can go. The work
itself is `createWith` or `updateWith` in the scope of the transaction: all its calls are operations
in that scope, however many links there are and whichever of the calls fails.
-/

namespace ResourceApi

variable {α : Type}

/-- The exchanges and the result of work in a transaction of its own. -/
inductive Transacted (work : Action α) : List Exchange → Except ApiError α → Prop
  /-- The transaction does not begin. -/
  | refused (e : StoreError) : Transacted work [⟨.begin, .error e⟩] (.error e.toApiError)
  /-- The work succeeds and is committed. -/
  | committed {t : List Exchange} {a : α} : work.Runs t (.ok a) →
      Transacted work (⟨.begin, .ok ()⟩ :: (t ++ [⟨.commit, .ok ()⟩])) (.ok a)
  /-- The work succeeds and its commit fails. -/
  | notCommitted {t : List Exchange} {a : α} (e : StoreError) : work.Runs t (.ok a) →
      Transacted work (⟨.begin, .ok ()⟩ :: (t ++ [⟨.commit, .error e⟩])) (.error e.toApiError)
  /-- The work fails; its error is the result, whatever the reply to the rollback. -/
  | rolledBack {t : List Exchange} {e : ApiError} (reply : Call.rollback.Reply) :
      work.Runs t (.error e) →
      Transacted work (⟨.begin, .ok ()⟩ :: (t ++ [⟨.rollback, reply⟩])) (.error e)

namespace Action

/-- The end of a transaction, by the result of the work in it. -/
def finish : Except ApiError α → Action α
  | .ok a => do
    ask .commit
    return a
  | .error e => do
    let _ ← ExceptT.lift (Program.ask .rollback)
    throw e

theorem inTransaction_eq (work : Action α) :
    inTransaction work = ask .begin >>= fun _ => ExceptT.lift work.run >>= finish := rfl

theorem runs_finish_ok {a : α} {t : List Exchange} {result : Except ApiError α} :
    Runs (finish (.ok a)) t result ↔ ∃ reply, t = [⟨.commit, reply⟩] ∧
      result = (reply.mapError StoreError.toApiError).map fun _ => a := by
  unfold finish
  rw [runs_bind]
  constructor
  · rintro (⟨e, h, rfl⟩ | ⟨_, _, u, rfl, h, hp⟩)
    · obtain ⟨reply, rfl, he⟩ := runs_ask.1 h
      exact ⟨reply, rfl, by rw [← he]; rfl⟩
    · obtain ⟨reply, rfl, hu⟩ := runs_ask.1 h
      obtain ⟨rfl, rfl⟩ := runs_pure.1 hp
      exact ⟨reply, rfl, by rw [← hu]; rfl⟩
  · rintro ⟨reply | ⟨⟩, rfl, rfl⟩
    · exact .inl ⟨_, runs_ask.2 ⟨_, rfl, rfl⟩, rfl⟩
    · exact .inr ⟨_, [], (), rfl, runs_ask.2 ⟨.ok (), rfl, rfl⟩, runs_pure.2 ⟨rfl, rfl⟩⟩

theorem runs_finish_error {e : ApiError} {t : List Exchange} {result : Except ApiError α} :
    Runs (finish (.error e)) t result ↔
      ∃ reply, t = [⟨.rollback, reply⟩] ∧ result = .error e := by
  unfold finish
  rw [runs_bind]
  constructor
  · rintro (⟨_, h, -⟩ | ⟨_, _, _, rfl, h, ht⟩)
    · obtain ⟨_, -, h⟩ := runs_lift.1 h
      exact nomatch h
    · obtain ⟨reply, hr, -⟩ := runs_lift.1 h
      obtain rfl := Program.runs_ask.1 hr
      obtain ⟨rfl, rfl⟩ := runs_throw.1 ht
      exact ⟨reply, rfl, rfl⟩
  · rintro ⟨reply, rfl, rfl⟩
    exact .inr ⟨_, [], reply, rfl, runs_lift.2 ⟨reply, Program.runs_ask.2 rfl, rfl⟩,
      runs_throw.2 ⟨rfl, rfl⟩⟩

/-- **Transactions end once.** The runs of work in a transaction of its own are those of
`Transacted`, and no others. -/
theorem runs_inTransaction {work : Action α} {t : List Exchange} {result : Except ApiError α} :
    Runs (inTransaction work) t result ↔ Transacted work t result := by
  rw [inTransaction_eq, runs_bind]
  constructor
  · rintro (⟨e, hb, rfl⟩ | ⟨_, v, _, rfl, hb, hv⟩)
    · obtain ⟨reply | _, rfl, h⟩ := runs_ask.1 hb
      · cases h
        exact .refused reply
      · exact nomatch h
    · obtain ⟨reply | ⟨⟩, rfl, h⟩ := runs_ask.1 hb
      · exact nomatch h
      rcases runs_bind.1 hv with ⟨e, hw, -⟩ | ⟨body, w, outcome, rfl, hw, hf⟩
      · obtain ⟨_, -, h⟩ := runs_lift.1 hw
        exact nomatch h
      obtain ⟨_, hw, h⟩ := runs_lift.1 hw
      cases h
      cases outcome with
      | ok a =>
        obtain ⟨reply | ⟨⟩, rfl, rfl⟩ := runs_finish_ok.1 hf
        · exact .notCommitted reply hw
        · exact .committed hw
      | error e =>
        obtain ⟨reply, rfl, rfl⟩ := runs_finish_error.1 hf
        exact .rolledBack reply hw
  · intro h
    -- once the transaction has begun, the work and the end of the transaction follow
    have begun {body : List Exchange} {last outcome} (hw : work.Runs body outcome)
        (hf : Runs (finish outcome) [last] result) :
        Runs (ExceptT.lift work.run >>= finish) (body ++ [last]) result :=
      runs_bind.2 (.inr ⟨body, [last], outcome, rfl, runs_lift.2 ⟨_, hw, rfl⟩, hf⟩)
    have hb : Runs (ask .begin) [⟨.begin, .ok ()⟩] (.ok ()) := runs_ask.2 ⟨.ok (), rfl, rfl⟩
    cases h with
    | refused e => exact .inl ⟨_, runs_ask.2 ⟨.error e, rfl, rfl⟩, rfl⟩
    | committed hw =>
      exact .inr ⟨_, _, (), rfl, hb, begun hw (runs_finish_ok.2 ⟨.ok (), rfl, rfl⟩)⟩
    | notCommitted e hw =>
      exact .inr ⟨_, _, (), rfl, hb, begun hw (runs_finish_ok.2 ⟨.error e, rfl, rfl⟩)⟩
    | rolledBack reply hw =>
      exact .inr ⟨_, _, (), rfl, hb, begun hw (runs_finish_error.2 ⟨reply, rfl, rfl⟩)⟩

end Action

/-! ## Payloads with linkage -/

namespace Parts

theorem hasRelationships_addLink {p q : Parts} {a : Association} {link : Link}
    (h : p.addLink a link = .ok q) : q.hasRelationships := by
  unfold addLink at h
  split at h
  · cases h
  · cases h
  · split at h <;> cases h <;> simp [hasRelationships]

theorem hasRelationships_foldlM {r : Registry} {schema : Schema} (links : List (String × Link))
    {p q : Parts}
    (h : links.foldlM (fun p (name, link) =>
      match r.association? schema name with
      | none => .error (.unknownRelationship schema.name name)
      | some a => p.addLink a link) p = (.ok q : Except PartsError Parts)) :
    q.hasRelationships = (p.hasRelationships || !links.isEmpty) := by
  induction links generalizing p with
  | nil =>
    cases h
    simp
  | cons l links ih =>
    obtain ⟨name, link⟩ := l
    rw [List.foldlM_cons] at h
    cases ha : r.association? schema name with
    | none =>
      simp only [ha] at h
      cases h
    | some a =>
      simp only [ha] at h
      cases hp : p.addLink a link with
      | error e =>
        rw [hp] at h
        cases h
      | ok p' =>
        rw [hp] at h
        rw [ih h, hasRelationships_addLink hp]
        simp

/-- The parts of a payload have linkage if the payload has. -/
theorem hasRelationships_ofPayload {r : Registry} {schema : Schema} {payload : Payload} {p : Parts}
    (h : ofPayload r schema payload = .ok p) :
    p.hasRelationships = !payload.relationships.isEmpty :=
  hasRelationships_foldlM payload.relationships h

end Parts

/-! ## Calls of writes -/

namespace Engine

open ResourceApi.Action

variable {scope : Scope}

theorem hasRelationships_parts {r : Registry} {schema : Schema} {payload : Payload} {p : Parts}
    (h : parts r schema payload = .ok p) : p.hasRelationships = !payload.relationships.isEmpty := by
  unfold parts at h
  cases hp : Parts.ofPayload r schema payload with
  | error e =>
    rw [hp] at h
    cases h
  | ok q =>
    rw [hp] at h
    cases h
    exact Parts.hasRelationships_ofPayload hp

section

variable {r : Registry} {schema : Schema} {payload : Payload}

/-- A payload without linkage has only attributes. -/
theorem parts_of_unlinked (hr : payload.relationships = []) :
    parts r schema payload = .ok ⟨payload.attributes, [], []⟩ := by
  unfold parts Parts.ofPayload
  rw [hr]
  rfl

theorem create_eq_createWith (hr : payload.relationships = []) :
    create r schema payload =
      createWith .store schema payload.id ⟨payload.attributes, [], []⟩ := by
  unfold create
  rw [parts_of_unlinked hr]
  rfl

theorem createIn_eq_createWith (hr : payload.relationships = []) :
    createIn r schema payload =
      createWith .transaction schema payload.id ⟨payload.attributes, [], []⟩ := by
  unfold createIn
  rw [parts_of_unlinked hr]
  rfl

/-- Without linkage, an update changes its row and reads it again. -/
theorem update_of_unlinked (hr : payload.relationships = []) (id : Json) :
    update r schema id payload = liftM (checkPayloadId schema id payload) >>= fun _ =>
      Action.perform .store (.update schema payload.attributes (.idIs schema id)) >>= fun changed =>
        if changed = 0 then throw (notFound schema id) else reload r .store schema id [] := by
  unfold update
  rw [parts_of_unlinked hr]
  rfl

end

/-- Linkage keeps to its scope. -/
theorem linkageCalls_within (p : Parts) : p.LinkageCalls (∃ o, · = .perform scope o) scope where
  keys _ _ _ := ⟨_, rfl⟩
  targets _ _ _ := ⟨_, rfl⟩
  rows _ _ _ _ := ⟨_, rfl⟩
  adds _ _ _ _ := ⟨_, rfl⟩
  sets _ _ _ _ := ⟨_, rfl⟩

/-- A create with linkage keeps to its scope. -/
theorem within_createWith (schema : Schema) (given : Option Json) (parts : Parts) :
    Within scope (createWith scope schema given parts) :=
  (always_createWith (linkageCalls_within parts) fun _ _ => ⟨_, rfl⟩).within

/-- An update with linkage keeps to its scope. -/
theorem within_updateWith (r : Registry) (schema : Schema) (id : Json) (parts : Parts) :
    Within scope (updateWith r scope schema id parts) :=
  (always_updateWith (linkageCalls_within parts) ⟨_, rfl⟩ (fun _ _ => ⟨_, rfl⟩) ⟨_, rfl⟩).within

end Engine

/-! ## Ownership of transactions -/

namespace Action

/-- The action never begins or ends a transaction. -/
def LeavesTransactions (x : Action α) : Prop :=
  ∀ t result, x.Runs t result → ∀ e ∈ t, ¬ e.IsControl

/-- The action is the work in a transaction of its own, and the work keeps to the transaction. -/
def OwnsTransaction (x work : Action α) : Prop :=
  work.Within .transaction ∧ ∀ t result, x.Runs t result ↔ Transacted work t result

theorem Within.leavesTransactions {scope : Scope} {x : Action α} (h : x.Within scope) :
    x.LeavesTransactions :=
  fun t result hx e he => (h t result hx e he).not_isControl

theorem Within.owns {work : Action α} (h : work.Within .transaction) :
    (inTransaction work).OwnsTransaction work :=
  ⟨h, fun _ _ => runs_inTransaction⟩

/-- A check that fails before any call leaves transactions alone. -/
theorem leavesTransactions_checked {β : Type} {x : Except ApiError β} {f : β → Action α}
    (h : ∀ b, x = .ok b → (f b).LeavesTransactions) : (liftM x >>= f).LeavesTransactions := by
  rintro v result hv e he
  rcases runs_bind.1 hv with ⟨_, hx, -⟩ | ⟨t, u, b, rfl, hx, hf⟩
  · simp [(runs_liftM.1 hx).1] at he
  · obtain ⟨rfl, hb⟩ := runs_liftM.1 hx
    exact h b hb.symm u result hf e he

end Action

namespace Engine

open ResourceApi.Action

variable (r : Registry) (schema : Schema) (id : Json) (payload : Payload)

/-- A create without linkage is one operation on the store. -/
theorem create_leavesTransactions (h : payload.relationships = []) :
    (create r schema payload).LeavesTransactions := by
  unfold create
  refine leavesTransactions_checked ?_
  intro p hp
  rw [if_neg (by simp [hasRelationships_parts hp, h])]
  have hw : Within .store (do
      let row ← assignId schema payload.id p.attributes
      let created ← Action.perform .store (.create schema row)
      return (⟨← primaryKey schema created, created, []⟩ : Record)) :=
    ((always_assignId _ _ _).bind fun row _ => (always_perform ⟨_, rfl⟩).bind fun created _ =>
      (always_liftM _).bind fun id _ => always_pure _).within
  exact hw.leavesTransactions

/-- An update without linkage is a change of the store and a read of it. -/
theorem update_leavesTransactions (h : payload.relationships = []) :
    (update r schema id payload).LeavesTransactions := by
  unfold update
  refine leavesTransactions_checked fun _ _ => leavesTransactions_checked fun p hp => ?_
  rw [if_neg (by simp [hasRelationships_parts hp, h])]
  exact ((always_perform ⟨_, rfl⟩).bind fun changed _ => always_guard fun _ =>
    always_reload ⟨_, rfl⟩ _).within.leavesTransactions

theorem createIn_leavesTransactions : (createIn r schema payload).LeavesTransactions := by
  unfold createIn
  exact leavesTransactions_checked fun p _ => (within_createWith _ _ p).leavesTransactions

theorem updateIn_leavesTransactions : (updateIn r schema id payload).LeavesTransactions := by
  unfold updateIn
  exact leavesTransactions_checked fun _ _ => leavesTransactions_checked fun p _ =>
    (within_updateWith _ _ _ p).leavesTransactions

theorem create_eq_inTransaction {p : Parts} (hp : parts r schema payload = .ok p)
    (h : payload.relationships ≠ []) :
    create r schema payload = inTransaction (createWith .transaction schema payload.id p) := by
  have hr : p.hasRelationships = true := by simp [hasRelationships_parts hp, h]
  unfold create
  rw [hp]
  show (if p.hasRelationships then _ else _) = _
  rw [if_pos hr]

theorem update_eq_inTransaction {p : Parts} (hi : checkPayloadId schema id payload = .ok ())
    (hp : parts r schema payload = .ok p) (h : payload.relationships ≠ []) :
    update r schema id payload = inTransaction (updateWith r .transaction schema id p) := by
  have hr : p.hasRelationships = true := by simp [hasRelationships_parts hp, h]
  unfold update
  rw [hi, hp]
  show (if p.hasRelationships then _ else _) = _
  rw [if_pos hr]

/-- **Transactions of writes.** A create or update with linkage whose payload passes its checks owns
a transaction, in which it does all of its work. A create or update without linkage, and any write
in a transaction of the caller, leaves transactions alone. -/
theorem create_and_update_transactions :
    (∀ p, payload.relationships ≠ [] → parts r schema payload = .ok p →
      (create r schema payload).OwnsTransaction (createWith .transaction schema payload.id p) ∧
      (checkPayloadId schema id payload = .ok () →
        (update r schema id payload).OwnsTransaction
          (updateWith r .transaction schema id p))) ∧
    (payload.relationships = [] →
      (create r schema payload).LeavesTransactions ∧
      (update r schema id payload).LeavesTransactions) ∧
    (createIn r schema payload).LeavesTransactions ∧
    (updateIn r schema id payload).LeavesTransactions := by
  refine ⟨fun p h hp => ⟨?_, fun hi => ?_⟩, fun h => ⟨?_, ?_⟩, ?_, ?_⟩
  · rw [create_eq_inTransaction r schema payload hp h]
    exact (within_createWith _ _ p).owns
  · rw [update_eq_inTransaction r schema id payload hi hp h]
    exact (within_updateWith _ _ _ p).owns
  · exact create_leavesTransactions r schema payload h
  · exact update_leavesTransactions r schema id payload h
  · exact createIn_leavesTransactions r schema payload
  · exact updateIn_leavesTransactions r schema id payload

/-- A payload for a node, which may put it at the top of its tree. -/
def nodePayload (relationships : List (String × Link)) : Payload :=
  { resourceType := "Node", attributes := [("name", .str "x")], relationships }

/-- The parts of a payload that puts a node at the top of its tree. -/
def topParts : Parts := ⟨[("name", .str "x")], [⟨nodeUp, "upId", none⟩], []⟩

/-- To put a node at the top of its tree takes a transaction; to name it does not. -/
theorem node_transactions :
    ((create tree treeNode (nodePayload [("up", .one none)])).OwnsTransaction
        (createWith .transaction treeNode none topParts) ∧
      (update tree treeNode (.int 1) (nodePayload [("up", .one none)])).OwnsTransaction
        (updateWith tree .transaction treeNode (.int 1) topParts)) ∧
    (create tree treeNode (nodePayload [])).LeavesTransactions ∧
    (update tree treeNode (.int 1) (nodePayload [])).LeavesTransactions := by
  refine ⟨?_, ?_⟩
  · have hparts : parts tree treeNode (nodePayload [("up", .one none)]) = .ok topParts := by
      decide +kernel
    obtain ⟨hc, hu⟩ := (create_and_update_transactions tree treeNode (.int 1)
      (nodePayload [("up", .one none)])).1 topParts (by decide) hparts
    exact ⟨hc, hu rfl⟩
  · exact (create_and_update_transactions tree treeNode (.int 1) (nodePayload [])).2.1 rfl

end Engine

end ResourceApi
