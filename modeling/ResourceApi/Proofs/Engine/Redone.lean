import ResourceApi.Proofs.Engine.Agreement
import ResourceApi.Proofs.Engine.Mirroring
import ResourceApi.Proofs.Store.Repeating

/-!
# Updates that are done again

An update that has been answered with a record is taken apart into what it has done to the database,
and what it did can be done once more to the database that it has left.

**Theorem (`Engine.UpdatesWith.again`).** An update with linkage finds its row again, and the rows
that it links. Its row is set to what it is set to already, and each association is written to the
place where its links stand, so that in the end the database is what it was.

**Theorem (`Engine.UpdatesTo.again`).** So it is with an update without linkage.

Between the two updates, what may differ are the places that they both write
(`Session.Sets.again_and_relinks`). What is asked of the linkage is that it names rows that exist:
created rows would be created twice.
-/

namespace ResourceApi

variable {schemas : List Schema} {r : Registry} {schema : Schema} {a : Association}
  {db mid db' d z : Database} {id : Json} {link : Link}

/-! ## Links to rows that are there -/

/-- The link creates no rows. -/
def Link.NamesRows (link : Link) : Prop := ∀ target ∈ link.targets, ∃ id, target = .byId id

theorem Link.NamesRows.targets_eq (h : link.NamesRows) : link.targets = link.ids.map .byId := by
  unfold NamesRows at h
  unfold ids
  generalize link.targets = targets at h
  induction targets with
  | nil => rfl
  | cons target rest ih =>
    obtain ⟨⟨id, rfl⟩, hrest⟩ := List.forall_mem_cons.1 h
    exact congrArg _ (ih hrest)

/-- The links of a payload's parts, as they are written. -/
def Parts.linked (p : Parts) : List (Association × List Json) :=
  p.links.map fun x => (x.1, x.2.ids)

namespace Engine

open Action Session Database

variable {scope : Scope} {supply : Nat → String} {s : Session} {parts : Parts}

/-- A link that creates no rows leads to the rows that it names. -/
theorem resolveTargets_of_namesRows (h : link.NamesRows) : resolveTargets scope a link =
    (requireExisting scope a link.ids >>= fun _ => pure link.ids) := by
  unfold resolveTargets
  rw [h.targets_eq]
  simp [List.filterMap_map]

/-- What is noted of links. -/
def noted (links : List (Association × List Json)) (related : Object) : Object :=
  related.insertAll (links.map fun x => (x.1.name, linkedIds x.1 x.2))

/-! ### What has been done -/

section

variable (hl : TablesLinked r.tables)
include hl

theorem relinks_of_writeLinks {links : List (Association × Link)} {related result : Object}
    (hnames : ∀ x ∈ links, x.2.NamesRows)
    (h : Takes r (writeLinks scope (fun a ids => .setLinks a id ids) links related) db result db') :
    Relinks id db (links.map fun x => (x.1, x.2.ids)) db' ∧
      result = noted (links.map fun x => (x.1, x.2.ids)) related := by
  induction links generalizing db related with
  | nil =>
    obtain ⟨rfl, rfl⟩ := h.of_pure
    exact ⟨.nil _, rfl⟩
  | cons x rest ih =>
    obtain ⟨a, link⟩ := x
    obtain ⟨hfirst, hothers⟩ := List.forall_mem_cons.1 hnames
    unfold writeLinks at h
    rw [resolveTargets_of_namesRows hfirst] at h
    obtain ⟨ids, mid, hresolve, hrest⟩ := h.of_bind hl
    obtain ⟨_, mid', hrequire, hpure⟩ := hresolve.of_bind hl
    obtain ⟨rfl, hrequired⟩ := required_of_requireExisting hl hrequire
    obtain ⟨rfl, rfl⟩ := hpure.of_pure
    obtain ⟨_, next, hlink, hlast⟩ := hrest.of_bind hl
    obtain ⟨hrelinks, rfl⟩ := ih hothers hlast
    exact ⟨.cons hrequired hlink.performs_of_setLinks hrelinks, rfl⟩

end

/-! ### What can be done -/

section

variable {α : Type} {result : Except ApiError α} {saved : Option Database}
  {a : Association} {ids : List Json}

theorem serves_transaction (s : Session) : s.Serves .transaction := nofun

theorem ends_existingIds {f : List Json → Action α} {found : List Json} (hs : s.Has r mid saved)
    (h : existing schema ids mid = .ok found)
    (hf : ∀ s' : Session, s'.Has r mid saved → Ends supply (f found) s' result db) :
    Ends supply (Action.perform .transaction (.existingIds schema ids) >>= f) s result db := by
  have hchanges : Changes (perform (.existingIds schema ids)) _ :=
    (computes_existingIds schema ids).changes
  have hexisting : (existing schema ids s.database).map (s.database, ·) = .ok (mid, found) := by
    rw [hs.database, h]
    rfl
  refine ends_perform_ok (serves_transaction s) hchanges hexisting fun s' hs' => hf s' ?_
  rwa [hs.registry, hs.saved] at hs'

theorem ends_requireExisting {f : Unit → Action α} (hs : s.Has r mid saved)
    (h : Required a.target ids mid)
    (hf : ∀ s' : Session, s'.Has r mid saved → Ends supply (f ()) s' result db) :
    Ends supply (requireExisting .transaction a ids >>= f) s result db := by
  obtain ⟨found, hfound, hall⟩ := h
  have hnone : (ids.find? fun id => !found.any id.agrees) = none := by
    simpa using hall
  unfold requireExisting
  split
  · exact hf s hs
  · rw [bind_assoc]
    refine ends_existingIds hs hfound fun s' hs' => ?_
    rw [hnone]
    exact hf s' hs'

theorem ends_inlineKeys {f : Object × Object → Action α} {keys : List OwnKey} {row related : Object}
    (hs : s.Has r mid saved)
    (h : ∀ key ∈ keys, ∀ id, key.id = some id → Required key.association.target [id] mid)
    (hf : ∀ s' : Session, s'.Has r mid saved →
      Ends supply (f (row.insertAll (keys.map fun key => (key.field, key.value)),
        related.insertAll (keys.map fun key => (key.association.name, key.value)))) s' result db) :
    Ends supply (inlineKeys .transaction keys row related >>= f) s result db := by
  induction keys generalizing s row related with
  | nil => exact hf s hs
  | cons key rest ih =>
    obtain ⟨hfirst, hrest⟩ := List.forall_mem_cons.1 h
    unfold inlineKeys
    split
    · rename_i id hid
      rw [bind_assoc]
      refine ends_requireExisting hs (hfirst id hid) fun s₁ hs₁ => ih hs₁ hrest fun s₂ hs₂ => ?_
      simpa [Object.insertAll, OwnKey.value, hid] using hf s₂ hs₂
    · refine ih hs hrest fun s₁ hs₁ => ?_
      simpa [Object.insertAll, OwnKey.value] using hf s₁ hs₁

theorem ends_writeLinks {f : Object → Action α} {links : List (Association × Link)}
    {related : Object} (hs : s.Has r mid saved) (hnames : ∀ x ∈ links, x.2.NamesRows)
    (h : Relinks id mid (links.map fun x => (x.1, x.2.ids)) db')
    (hf : ∀ s' : Session, s'.Has r db' saved →
      Ends supply (f (noted (links.map fun x => (x.1, x.2.ids)) related)) s' result db) :
    Ends supply (writeLinks .transaction (fun a ids => .setLinks a id ids) links related >>= f)
      s result db := by
  induction links generalizing s mid related with
  | nil =>
    cases h
    exact hf s hs
  | cons x rest ih =>
    obtain ⟨a, link⟩ := x
    obtain ⟨hfirst, hothers⟩ := List.forall_mem_cons.1 hnames
    cases h with
    | cons hrequired hperforms hrelinks =>
      unfold writeLinks
      rw [resolveTargets_of_namesRows hfirst, bind_assoc, bind_assoc]
      refine ends_requireExisting hs hrequired fun s₁ hs₁ => ?_
      rw [pure_bind, bind_assoc]
      rw [← hs₁.database] at hperforms
      obtain ⟨s₂, hrun, rfl⟩ := exists_run_link hperforms
      refine ends_perform_of_run (serves_transaction s₁) hrun fun hs₂ => ?_
      rw [hs₁.registry, hs₁.saved] at hs₂
      exact ih hs₂ hothers hrelinks hf

end

/-! ### Updates with linkage -/

/-- What an update with linkage comes to on a database, if its links create no rows. -/
structure UpdatesWith (r : Registry) (schema : Schema) (id : Json) (parts : Parts) (db : Database)
    (object : Object) (db' : Database) : Prop where
  there : ∃ found, existing schema [id] db = .ok found ∧ found ≠ []
  keys : parts.KeysRequired db
  written : ∃ mid, Sets r schema id parts.row db mid ∧ Relinks id mid parts.linked db'
  read : ∃ rest, found schema (reloadPlan r schema id) r db' = .ok (object :: rest)

theorem updatesWith_of_takes (hl : TablesLinked r.tables) {record : Record}
    (hnames : ∀ x ∈ parts.links, x.2.NamesRows)
    (h : Takes r (updateWith r scope schema id parts) db record db') :
    UpdatesWith r schema id parts db record.attributes db' ∧
      record = ⟨id, record.attributes, noted parts.linked parts.noted⟩ := by
  obtain ⟨found, mid, hfound, hne, hkeys, hsets, hlast⟩ := exists_takes_of_updateWith hl h
  obtain ⟨related, last, hwrite, hreload⟩ := hlast.of_bind hl
  obtain ⟨hrelinks, rfl⟩ := relinks_of_writeLinks hl hnames hwrite
  obtain ⟨rfl, hid, hrelated, hread⟩ := of_reload hl hreload
  refine ⟨⟨⟨found, hfound, hne⟩, hkeys, ⟨mid, hsets, hrelinks⟩, hread⟩, ?_⟩
  rw [← hid, Parts.linked, ← hrelated]

theorem exists_hasId_of_found (hc : r.Creatable) (hs : schema ∈ r.schemas) (hdb : db.Sound r.tables)
    (hk : schema.Addressable) {object : Object} {rest : List Object}
    (h : found schema (reloadPlan r schema id) r db = .ok (object :: rest)) :
    ∃ row ∈ db.rows schema.tableName, db.hasId schema id row = true := by
  obtain ⟨query, outputs, related, hquery, hall⟩ := select_of_found h
  obtain ⟨q, hq, hreloads⟩ := exists_reloads r hk id
  obtain ⟨rfl, rfl⟩ := Prod.mk.inj (Except.ok.inj (hq.symm.trans hquery))
  by_contra hnone
  have hfiltered : db.sorted q = [] := by
    refine List.perm_nil.1 ((db.sorted_perm q).trans ?_)
    rw [hreloads.addresses.filtered_eq hc hdb hs, List.filter_eq_nil_iff.2 (by simpa using hnone)]
  unfold Database.select Database.selected at hall
  change List.Forall₂ _ (((window q.limit q.offset (db.sorted q)).map _).map _) _ at hall
  rw [hfiltered, hreloads.addresses.window_eq] at hall
  cases hall

namespace UpdatesWith

variable {object : Object}

/-- An update with linkage succeeds in a transaction where it can be carried out. -/
theorem ends {saved : Option Database} (h : UpdatesWith r schema id parts mid object db')
    (hs : s.Has r mid saved) (hnames : ∀ x ∈ parts.links, x.2.NamesRows) :
    Ends supply (updateWith r .transaction schema id parts) s
      (.ok ⟨id, object, noted parts.linked parts.noted⟩) db' := by
  obtain ⟨⟨found, hfound, hne⟩, hkeys, ⟨next, hsets, hrelinks⟩, hread⟩ := h
  have hlast {s : Session} (hs : s.Has r next saved) :
      Ends supply (writeLinks .transaction (fun a ids => .setLinks a id ids) parts.links parts.noted
        >>= fun related => reload r .transaction schema id related) s
          (.ok ⟨id, object, noted parts.linked parts.noted⟩) db' := by
    refine ends_writeLinks hs hnames hrelinks fun s₁ hs₁ => ?_
    refine ends_findOne (serves_transaction s₁) hs₁.registry hs₁.database hread fun s₂ hs₂ => ?_
    rw [← hs₂.database]
    exact ends_pure _
  unfold updateWith
  refine ends_existingIds hs hfound fun s₁ hs₁ => ?_
  rw [if_neg (by simpa using hne)]
  refine ends_inlineKeys hs₁ hkeys fun s₂ hs₂ => ?_
  change Ends supply (if !parts.row.isEmpty then _ else _) _ _ _
  rcases hsets with ⟨hempty, rfl⟩ | ⟨hchange, n, hupdated⟩
  · rw [if_neg (by simp [hempty])]
    exact hlast hs₂
  · rw [if_pos (by simp [hchange])]
    have hchanges : Changes (perform (.update schema parts.row (.idIs schema id)))
        (updated schema parts.row (.idIs schema id)) := changes_update _ _ _
    rw [← hs₂.registry, ← hs₂.database] at hupdated
    refine ends_perform_ok (serves_transaction s₂) hchanges hupdated fun s₃ hs₃ => ?_
    rw [hs₂.registry, hs₂.saved] at hs₃
    exact hlast hs₃

/-- **An update with linkage can be repeated**, and then changes nothing. -/
theorem again (hu : UpdatesWith r schema id parts d object z)
    (h : Registry.assemble schemas = .ok r) (hc : r.Creatable) (hs : schema ∈ r.schemas)
    (hk : schema.Addressable) (hd : d.Intact r) (hz : z.Intact r)
    (ht : ∀ key ∈ parts.keys, key.association.target ∈ r.schemas)
    (hlinks : ∀ x ∈ parts.linked, x.1.Rewritable r) (hn : (parts.linked.map (·.1.place)).Nodup)
    (hplaces : ∀ field ∈ parts.row.keys,
      (schema.tableName, some (columnName field)) ∈ parts.linked.map (·.1.place) →
        schema.Repeats (columnName field)) : UpdatesWith r schema id parts z object z := by
  obtain ⟨-, hkeys, ⟨mid, hsets, hrelinks⟩, hread⟩ := hu
  obtain ⟨rest, hfound⟩ := hread
  have hrow := exists_hasId_of_found hc hs hz.regular.sound hk hfound
  obtain ⟨hparallel, hagain⟩ :=
    hsets.again_and_relinks h hc hk hs hd hz hplaces hrow rfl hrelinks hlinks hn
  obtain ⟨found, hexisting, hnil⟩ := existing_id z schema id
  refine ⟨⟨found, hexisting, fun hnone => ?_⟩, fun key hkey target htarget => ?_, hagain, rest,
    hfound⟩
  · obtain ⟨row, hm, hid⟩ := hrow
    exact absurd hid (by rw [hnil.1 hnone row hm]; nofun)
  · obtain ⟨found, hexisting, hall⟩ := hkeys key hkey target htarget
    exact ⟨found, existing_of_parallel h hc hd.regular hz.regular (ht key hkey) hparallel hexisting,
      hall⟩

end UpdatesWith

/-! ### Updates without linkage -/

/-- **An update without linkage can be repeated**, and then changes nothing. -/
theorem UpdatesTo.again {row : Object} {record : Record}
    (hu : UpdatesTo r schema id row d (.ok record) z)
    (h : Registry.assemble schemas = .ok r) (hc : r.Creatable) (hs : schema ∈ r.schemas)
    (hk : schema.Addressable) (hrow : schema.Declares row) (hd : d.Intact r) (hz : z.Intact r) :
    UpdatesTo r schema id row z (.ok record) z := by
  cases hu with
  | changed hsome hchange hcounted hsame hread =>
    obtain ⟨rest, hfound⟩ := hread
    obtain ⟨stored, hm, hid⟩ := exists_hasId_of_found hc hs hz.regular.sound hk hfound
    obtain ⟨hnothing, hleft⟩ := updated_idIs h hc hz.regular.sound hs hk hrow hm hid
    have hagain : ∃ n, updated schema row (.idIs schema id) r z = .ok (z, n) := by
      cases hempty : row.isEmpty with
      | true => exact hnothing hempty
      | false =>
        obtain ⟨-, e', n, hupdated, hb⟩ := updated_again h hc hk hs hd hz
          (fun _ _ hplace => absurd hplace List.not_mem_nil) ⟨stored, hm, hid⟩ hempty hchange
          (.refl hz.regular hc [])
        obtain rfl := hb.eq hc (intact_of_updated h hc hz hupdated) hz
        exact ⟨n, hupdated⟩
    obtain ⟨n, hagain⟩ := hagain
    exact .changed ⟨stored, hm, hid⟩ hagain (hleft z n hagain).1 (fun _ => rfl) ⟨rest, hfound⟩

end Engine

end ResourceApi
