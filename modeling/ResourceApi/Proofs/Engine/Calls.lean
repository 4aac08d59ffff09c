import ResourceApi.Engine.Basic
import ResourceApi.Proofs.Store.Decoding
import ResourceApi.Proofs.Store.Run

/-!
# Calls of writes

The operations that a create or an update asks of the store, whatever the store answers. A row that
is written has the attributes of the payload, the keys of its relationships and an identifier, and
no other fields.

**Theorems (`Engine.always_createWith`, `Engine.always_updateWith`).** A property of calls holds of
all calls of a write with linkage if it holds of the operations on its row and of those that its
linkage takes (`Parts.LinkageCalls`).
-/

namespace ResourceApi

variable {P : Call → Prop} {scope : Scope} {schema : Schema} {a : Association} {row : Object}

/-- The operations that the linkage of a payload takes have the property. -/
structure Parts.LinkageCalls (P : Call → Prop) (scope : Scope) (p : Parts) : Prop where
  keys : ∀ key ∈ p.keys, ∀ ids, P (.perform scope (.existingIds key.association.target ids))
  targets : ∀ x ∈ p.links, ∀ ids, P (.perform scope (.existingIds x.1.target ids))
  rows : ∀ x ∈ p.links, ∀ rows, (∀ row ∈ rows, ∃ given, .create given ∈ x.2.targets ∧
    row.keys ⊆ x.1.target.idField :: given.keys) → P (.perform scope (.bulkCreate x.1.target rows))
  adds : ∀ x ∈ p.links, ∀ parent ids, P (.perform scope (.addLinks x.1 parent ids))
  sets : ∀ x ∈ p.links, ∀ parent ids, P (.perform scope (.setLinks x.1 parent ids))

namespace Engine

open ResourceApi.Action

theorem keys_insert_subset {key : String} {value : Json} :
    (row.insert key value).keys ⊆ key :: row.keys :=
  fun _ hm => List.mem_cons.2 (Object.mem_keys_insert hm)

/-! ## Identifiers -/

theorem always_fillId (schema : Schema) (row : Object) : Always P (fillId schema row) := by
  unfold fillId
  split
  · exact always_drawn.bind fun _ _ => always_pure _
  · exact always_pure _

/-- A row is given an identifier at most. -/
theorem keys_of_fillId {filled : Object} (h : Yields (fillId schema row) filled) :
    filled.keys ⊆ schema.idField :: row.keys := by
  unfold fillId at h
  split at h
  · obtain ⟨id, -, h⟩ := yields_bind.1 h
    rw [yields_pure.1 h]
    exact keys_insert_subset
  · rw [yields_pure.1 h]
    exact List.subset_cons_self _ _

theorem always_assignId (schema : Schema) (given : Option Json) (row : Object) :
    Always P (assignId schema given row) :=
  always_fillId schema _

theorem keys_of_assignId {given : Option Json} {assigned : Object}
    (h : Yields (assignId schema given row) assigned) :
    assigned.keys ⊆ schema.idField :: row.keys := by
  refine List.Subset.trans (keys_of_fillId h) (List.cons_subset.2 ⟨List.mem_cons_self, ?_⟩)
  cases given with
  | none => exact List.subset_cons_self _ _
  | some id => exact keys_insert_subset

theorem always_requireExisting (h : ∀ ids, P (.perform scope (.existingIds a.target ids)))
    (ids : List Json) : Always P (requireExisting scope a ids) := by
  unfold requireExisting
  split
  · exact always_pure ()
  · refine (always_perform (h ids)).bind fun found _ => ?_
    split
    · exact always_throw _
    · exact always_pure ()

/-! ## Keys of the row -/

theorem always_inlineKeys {keys : List OwnKey}
    (h : ∀ key ∈ keys, ∀ ids, P (.perform scope (.existingIds key.association.target ids)))
    (row related : Object) : Always P (inlineKeys scope keys row related) := by
  induction keys generalizing row related with
  | nil => exact always_pure _
  | cons key rest ih =>
    obtain ⟨hkey, hrest⟩ := List.forall_mem_cons.1 h
    unfold inlineKeys
    split
    · exact (always_requireExisting hkey _).bind fun _ _ => ih hrest _ _
    · exact ih hrest _ _

/-- A row is given the keys of its relationships. -/
theorem keys_of_inlineKeys {keys : List OwnKey} {related : Object} {out : Object × Object}
    (h : Yields (inlineKeys scope keys row related) out) :
    out.1.keys ⊆ keys.map (·.field) ++ row.keys := by
  induction keys generalizing row related with
  | nil =>
    obtain rfl := yields_pure.1 h
    exact List.Subset.refl _
  | cons key rest ih =>
    have hrest : Yields (inlineKeys scope rest (row.insert key.field (key.id.getD .null))
        (related.insert key.association.name (key.id.getD .null))) out := by
      unfold inlineKeys at h
      split at h
      · obtain ⟨_, -, h⟩ := yields_bind.1 h
        exact h
      · exact h
    refine List.Subset.trans (ih hrest) ?_
    intro field hm
    rcases List.mem_append.1 hm with hm | hm
    · exact List.mem_cons_of_mem _ (List.mem_append_left _ hm)
    · rcases List.mem_cons.1 (keys_insert_subset hm) with rfl | hm
      · exact List.mem_cons_self
      · exact List.mem_cons_of_mem _ (List.mem_append_right _ hm)

/-! ## Links -/

theorem always_resolveTargets {link : Link}
    (hids : ∀ ids, P (.perform scope (.existingIds a.target ids)))
    (hrows : ∀ rows, (∀ row ∈ rows, ∃ given, .create given ∈ link.targets ∧
      row.keys ⊆ a.target.idField :: given.keys) →
        P (.perform scope (.bulkCreate a.target rows))) :
    Always P (resolveTargets scope a link) := by
  unfold resolveTargets
  refine (always_mapM (always_fillId a.target) _).bind fun rows hfilled => ?_
  refine (always_requireExisting hids _).bind fun _ _ => ?_
  split
  · exact always_pure _
  · refine (always_perform (hrows rows fun row hm => ?_)).bind fun created _ =>
      (always_mapM (fun row => always_liftM _) created).bind fun _ _ => always_pure _
    obtain ⟨given, hgiven, hrow⟩ := exists_of_yields_mapM hfilled row hm
    obtain ⟨target, htarget, he⟩ := List.mem_filterMap.1 hgiven
    cases target with
    | byId id => cases he
    | create _ =>
      obtain rfl := Option.some.inj he
      exact ⟨_, htarget, keys_of_fillId hrow⟩

theorem always_writeLinks {write : Association → List Json → Operation}
    {links : List (Association × Link)}
    (hids : ∀ x ∈ links, ∀ ids, P (.perform scope (.existingIds x.1.target ids)))
    (hrows : ∀ x ∈ links, ∀ rows, (∀ row ∈ rows, ∃ given, .create given ∈ x.2.targets ∧
      row.keys ⊆ x.1.target.idField :: given.keys) →
        P (.perform scope (.bulkCreate x.1.target rows)))
    (hwrite : ∀ x ∈ links, ∀ ids, P (.perform scope (write x.1 ids))) (related : Object) :
    Always P (writeLinks scope write links related) := by
  induction links generalizing related with
  | nil => exact always_pure _
  | cons x rest ih =>
    obtain ⟨hids, hids'⟩ := List.forall_mem_cons.1 hids
    obtain ⟨hrows, hrows'⟩ := List.forall_mem_cons.1 hrows
    obtain ⟨hwrite, hwrite'⟩ := List.forall_mem_cons.1 hwrite
    unfold writeLinks
    exact (always_resolveTargets hids hrows).bind fun ids _ =>
      (always_perform (hwrite ids)).bind fun _ _ => ih hids' hrows' hwrite' _

/-! ## Writes -/

variable {p : Parts} {r : Registry} {id : Json}

theorem always_reload (h : P (.perform scope (.find schema (reloadPlan r schema id))))
    (related : Object) : Always P (reload r scope schema id related) := by
  refine Always.bind ((always_perform h).bind fun rows _ => ?_) fun _ _ => always_pure _
  cases rows with
  | nil => exact always_throw _
  | cons row rows => exact always_pure _

/-- **Calls of a create with linkage.** -/
theorem always_createWith (h : p.LinkageCalls P scope) {given : Option Json}
    (hrow : ∀ row, row.keys ⊆ schema.idField :: (p.keys.map (·.field) ++ p.attributes.keys) →
      P (.perform scope (.create schema row))) :
    Always P (createWith scope schema given p) := by
  unfold createWith
  refine (always_inlineKeys h.keys _ _).bind fun (row, related) hout => ?_
  refine (always_assignId _ _ _).bind fun assigned hassigned => ?_
  have hkeys : assigned.keys ⊆ schema.idField :: (p.keys.map (·.field) ++ p.attributes.keys) :=
    List.Subset.trans (keys_of_assignId hassigned)
      (List.cons_subset_cons _ (keys_of_inlineKeys hout))
  refine (always_perform (hrow assigned hkeys)).bind fun created _ => ?_
  refine (always_liftM _).bind fun id _ => ?_
  exact (always_writeLinks h.targets h.rows (fun x hx => h.adds x hx id) _).bind
    fun _ _ => always_pure _

/-- **Calls of an update with linkage.** -/
theorem always_updateWith (h : p.LinkageCalls P scope)
    (hid : P (.perform scope (.existingIds schema [id])))
    (hrow : ∀ row, row.keys ⊆ p.keys.map (·.field) ++ p.attributes.keys →
      P (.perform scope (.update schema row (.idIs schema id))))
    (hreload : P (.perform scope (.find schema (reloadPlan r schema id)))) :
    Always P (updateWith r scope schema id p) := by
  unfold updateWith
  have hlinked (related : Object) : Always P (do
      let related ← writeLinks scope (fun a ids => .setLinks a id ids) p.links related
      reload r scope schema id related) :=
    (always_writeLinks h.targets h.rows (fun x hx => h.sets x hx id) _).bind
      fun _ _ => always_reload hreload _
  refine (always_perform hid).bind fun found _ => ?_
  refine always_guard fun _ => (always_inlineKeys h.keys _ _).bind fun (row, related) hout => ?_
  dsimp only
  split
  · exact (always_perform (hrow row (keys_of_inlineKeys hout))).bind fun _ _ => hlinked _
  · exact hlinked _

end Engine

end ResourceApi
