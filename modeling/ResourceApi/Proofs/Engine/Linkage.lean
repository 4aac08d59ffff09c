import ResourceApi.Engine.Basic
import ResourceApi.Proofs.Store.Created

/-!
# Writes of linkage

What a create or an update with linkage has done when it succeeds, told on databases. The
relationships of a payload are sorted into keys of the row and links that are written after it
(`Parts.Sorts`). The targets of a link are looked up or created (`Engine.Resolved`), and links are
written one after the other (`Engine.LinksWritten`).

**Theorems (`Engine.exists_of_createWith`, `Engine.exists_of_updateWith`).** A create inserts a row
with its keys, an update changes the row that it finds; then links are written for that row.
-/

namespace ResourceApi

variable {schemas : List Schema} {r : Registry} {db mid db' : Database} {schema : Schema}
  {a : Association} {scope : Scope}

/-! ## Objects with members set -/

namespace Object

/-- The object with members set one after the other. -/
def insertAll (o : Object) (members : List (String × Json)) : Object :=
  members.foldl (fun o m => o.insert m.1 m.2) o

variable {o o' : Object} {members : List (String × Json)} {key : String} {value : Json}
  {m : String × Json}

/-- Members of other keys are left alone. -/
theorem mem_insert_of_ne (h : m.1 ≠ key) : m ∈ o.insert key value ↔ m ∈ o := by
  have hne (v : Json) : m ≠ (key, v) := fun he => h (congrArg Prod.fst he)
  induction o with
  | nil => simp [insert, hne]
  | cons n rest ih =>
    obtain ⟨k, v⟩ := n
    unfold insert
    split
    · rename_i hk
      subst hk
      simp [hne]
    · split
      · simp [hne]
      · simp [ih]

theorem mem_insert_self : (key, value) ∈ o.insert key value := by
  induction o with
  | nil => exact List.mem_cons_self
  | cons n rest ih =>
    obtain ⟨k, v⟩ := n
    unfold insert
    split
    · exact List.mem_cons_self
    · split
      · exact List.mem_cons_self
      · exact List.mem_cons_of_mem _ ih

theorem mem_insert (h : m ∈ o.insert key value) : m = (key, value) ∨ m ∈ o := by
  induction o with
  | nil => exact .inl (List.mem_singleton.1 h)
  | cons n rest ih =>
    obtain ⟨k, v⟩ := n
    unfold insert at h
    split at h
    · exact (List.mem_cons.1 h).imp_right (List.mem_cons_of_mem _)
    · split at h
      · exact List.mem_cons.1 h
      · rcases List.mem_cons.1 h with rfl | h
        · exact .inr List.mem_cons_self
        · exact (ih h).imp_right (List.mem_cons_of_mem _)

theorem mem_insertAll (h : m ∈ o.insertAll members) : m ∈ o ∨ m ∈ members := by
  unfold insertAll at h
  induction members generalizing o with
  | nil => exact .inl h
  | cons n rest ih =>
    rcases ih h with h | h
    · rcases mem_insert h with rfl | h
      · exact .inr List.mem_cons_self
      · exact .inl h
    · exact .inr (List.mem_cons_of_mem _ h)

theorem mem_insertAll_of_mem (hn : (members.map (·.1)).Nodup) (h : m ∈ members) :
    m ∈ o.insertAll members := by
  have kept (others : List (String × Json)) (o : Object) (hm : m ∈ o)
      (hnot : m.1 ∉ others.map (·.1)) : m ∈ o.insertAll others := by
    unfold insertAll
    induction others generalizing o with
    | nil => exact hm
    | cons n rest ih =>
      have hne : m.1 ≠ n.1 := fun he => hnot (he ▸ List.mem_cons_self)
      exact ih _ ((mem_insert_of_ne hne).2 hm) fun hm => hnot (List.mem_cons_of_mem _ hm)
  induction members generalizing o with
  | nil => cases h
  | cons n rest ih =>
    obtain ⟨hnew, hrest⟩ := List.nodup_cons.1 hn
    rcases List.mem_cons.1 h with rfl | h
    · exact kept rest _ mem_insert_self hnew
    · exact ih hrest h

theorem get?_insertAll_of_notMem (h : key ∉ members.map (·.1)) :
    (o.insertAll members).get? key = o.get? key := by
  unfold insertAll
  induction members generalizing o with
  | nil => rfl
  | cons m rest ih =>
    have hne : m.1 ≠ key := fun he => h (he ▸ List.mem_cons_self)
    rw [List.foldl_cons, ih fun hm => h (List.mem_cons_of_mem _ hm), get?_insert_of_ne hne]

theorem get?_insertAll_of_mem (hn : (members.map (·.1)).Nodup) (h : (key, value) ∈ members) :
    (o.insertAll members).get? key = some value := by
  unfold insertAll
  induction members generalizing o with
  | nil => cases h
  | cons m rest ih =>
    obtain ⟨hm, hrest⟩ := List.nodup_cons.1 hn
    rcases List.mem_cons.1 h with rfl | h
    · exact (get?_insertAll_of_notMem hm).trans (get?_insert_self key value o)
    · exact ih hrest h

/-- The objects have the same members, but for those of one key. -/
def SameBeside (key : String) (o o' : Object) : Prop :=
  ∀ m : String × Json, m.1 ≠ key → (m ∈ o' ↔ m ∈ o)

theorem SameBeside.refl (key : String) (o : Object) : SameBeside key o o := fun _ _ => Iff.rfl

theorem SameBeside.insert (h : SameBeside key o o') (value : Json) :
    SameBeside key o (o'.insert key value) :=
  fun m hm => (mem_insert_of_ne hm).trans (h m hm)

/-- A key is set if its value is given. -/
theorem sameBeside_given (o : Object) (key : String) (given : Option Json) :
    o.SameBeside key (given.elim o (o.insert key)) := by
  cases given with
  | none => exact .refl key o
  | some value => exact (SameBeside.refl key o).insert value

theorem SameBeside.mem_keys (h : SameBeside key o o') {k : String} (hk : k ∈ o'.keys) :
    k = key ∨ k ∈ o.keys := by
  obtain ⟨m, hm, rfl⟩ := List.mem_map.1 hk
  by_cases he : m.1 = key
  · exact .inl he
  · exact .inr (List.mem_map_of_mem ((h m he).1 hm))

end Object

/-! ## Sorted relationships -/

/-- The value of a key: the identifier of the related row, or null. -/
def OwnKey.value (key : OwnKey) : Json := key.id.getD .null

namespace Parts

/-- The relationships of a payload, in order, are keys of its row or links. -/
inductive Sorts (r : Registry) (schema : Schema) :
    List (String × Link) → List OwnKey → List (Association × Link) → Prop
  | nil : Sorts r schema [] [] []
  | key {name field : String} {link : Link} {a : Association} {id : Option Json}
      {rest : List (String × Link)} {keys : List OwnKey} {links : List (Association × Link)} :
      r.association? schema name = some a → a.kind = .belongsTo field →
      link.targets = id.toList.map .byId → Sorts r schema rest keys links →
      Sorts r schema ((name, link) :: rest) (⟨a, field, id⟩ :: keys) links
  | link {name : String} {link : Link} {a : Association} {rest : List (String × Link)}
      {keys : List OwnKey} {links : List (Association × Link)} :
      r.association? schema name = some a → (∀ field, a.kind ≠ .belongsTo field) →
      (a.cardinality = .one → link.targets.length ≤ 1) → Sorts r schema rest keys links →
      Sorts r schema ((name, link) :: rest) keys ((a, link) :: links)

theorem addLink_eq_ok {p q : Parts} {link : Link} (h : p.addLink a link = .ok q) :
    (∃ field id, a.kind = .belongsTo field ∧ link.targets = id.toList.map .byId ∧
      q = { p with keys := p.keys ++ [⟨a, field, id⟩] }) ∨
    (∀ field, a.kind ≠ .belongsTo field) ∧ (a.cardinality = .one → link.targets.length ≤ 1) ∧
      q = { p with links := p.links ++ [(a, link)] } := by
  have hsingle (hone : a.cardinality = .one) : link.targets.length ≤ 1 := by
    unfold addLink at h
    rcases link with (_ | target) | targets
    · exact Nat.zero_le 1
    · exact Nat.le_refl 1
    · rw [hone] at h
      cases h
  have hlink (hkind : ∀ field, a.kind ≠ .belongsTo field) :
      q = { p with links := p.links ++ [(a, link)] } := by
    unfold addLink at h
    split at h
    · cases h
    · cases h
    · cases hk : a.kind <;> simp_all
  cases hk : a.kind with
  | belongsTo field =>
    have hone : a.cardinality = .one := by rw [Association.cardinality, hk]; rfl
    rcases link with (_ | ⟨id⟩ | ⟨row⟩) | targets
    all_goals
      simp only [addLink, hone, hk] at h
      cases h
    · exact .inl ⟨field, none, rfl, rfl, rfl⟩
    · exact .inl ⟨field, some _, rfl, rfl, rfl⟩
  | hasOne key | hasMany key | hasManyThrough join =>
    have hkind : ∀ field, a.kind ≠ .belongsTo field := by simp [hk]
    exact .inr ⟨hk ▸ hkind, hsingle, hlink hkind⟩

theorem sorts_of_foldlM {relationships : List (String × Link)} {p q : Parts}
    (h : relationships.foldlM (fun p (name, link) =>
      match r.association? schema name with
      | none => .error (.unknownRelationship schema.name name)
      | some a => p.addLink a link) p = (.ok q : Except PartsError Parts)) :
    ∃ keys links, q.attributes = p.attributes ∧ q.keys = p.keys ++ keys ∧
      q.links = p.links ++ links ∧ Sorts r schema relationships keys links := by
  induction relationships generalizing p with
  | nil =>
    obtain rfl := pure_eq_ok.1 h
    exact ⟨[], [], rfl, by simp, by simp, .nil⟩
  | cons relationship rest ih =>
    obtain ⟨name, link⟩ := relationship
    rw [List.foldlM_cons] at h
    obtain ⟨next, hnext, h⟩ := bind_eq_ok.1 h
    obtain ⟨keys, links, hattributes, hkeys, hlinks, hsorts⟩ := ih h
    cases ha : r.association? schema name with
    | none =>
      simp only [ha] at hnext
      cases hnext
    | some a =>
      simp only [ha] at hnext
      rcases addLink_eq_ok hnext with ⟨field, id, hk, htargets, rfl⟩ | ⟨hk, hsingle, rfl⟩
      · exact ⟨⟨a, field, id⟩ :: keys, links, hattributes, by simpa using hkeys, hlinks,
          .key ha hk htargets hsorts⟩
      · exact ⟨keys, (a, link) :: links, hattributes, hkeys, by simpa using hlinks,
          .link ha hk hsingle hsorts⟩

/-- **The parts of a payload are its relationships, sorted.** -/
theorem sorts_of_parts {payload : Payload} {p : Parts}
    (h : Engine.parts r schema payload = .ok p) : p.attributes = payload.attributes ∧
      Sorts r schema payload.relationships p.keys p.links := by
  obtain ⟨keys, links, hattributes, hkeys, hlinks, hsorts⟩ :=
    sorts_of_foldlM (mapError_eq_ok.1 h)
  rw [List.nil_append] at hkeys hlinks
  exact ⟨hattributes, hkeys ▸ hlinks ▸ hsorts⟩

namespace Sorts

variable {relationships : List (String × Link)} {keys : List OwnKey}
  {links : List (Association × Link)} (h : Sorts r schema relationships keys links)
include h

/-- Every relationship has its association, among the keys or among the links. -/
theorem perm : (relationships.filterMap fun relationship =>
      r.association? schema relationship.1).Perm
    (keys.map (·.association) ++ links.map (·.1)) := by
  induction h with
  | nil => exact .refl _
  | key ha _ _ _ ih => simpa [ha] using ih
  | link ha _ _ _ ih => simpa [ha] using (ih.cons _).trans List.perm_middle.symm

/-- The associations among the keys and the links have names in the schema. -/
theorem exists_name : ∀ a ∈ keys.map (·.association) ++ links.map (·.1),
    ∃ name, r.association? schema name = some a := by
  intro a ha
  obtain ⟨relationship, -, hfound⟩ := List.mem_filterMap.1 (h.perm.symm.subset ha)
  exact ⟨relationship.1, hfound⟩

/-- Links are in the order of the relationships, under their names. -/
theorem sublist_names : (links.map (·.1.name)).Sublist (relationships.map (·.1)) := by
  induction h with
  | nil => exact .slnil
  | key _ _ _ _ ih => exact ih.cons _
  | link ha _ _ _ ih =>
    rw [List.map_cons, List.map_cons, (Registry.mem_of_association? ha).2.2]
    exact ih.cons_cons _

theorem of_mem_keys : ∀ key ∈ keys, key.association.kind = .belongsTo key.field ∧
    ∃ name, r.association? schema name = some key.association := by
  induction h with
  | nil => exact List.forall_mem_nil _
  | key ha hk _ _ ih => exact List.forall_mem_cons.2 ⟨⟨hk, _, ha⟩, ih⟩
  | link _ _ _ _ ih => exact ih

theorem of_mem_links : ∀ a link, (a, link) ∈ links → (∀ field, a.kind ≠ .belongsTo field) ∧
    (a.cardinality = .one → link.targets.length ≤ 1) ∧
    ∃ name, r.association? schema name = some a ∧ (name, link) ∈ relationships := by
  induction h with
  | nil => exact fun _ _ hm => absurd hm List.not_mem_nil
  | key _ _ _ _ ih =>
    intro a link hm
    obtain ⟨hk, hsingle, name, ha, hname⟩ := ih a link hm
    exact ⟨hk, hsingle, name, ha, List.mem_cons_of_mem _ hname⟩
  | link ha hk hsingle _ ih =>
    intro a link hm
    rcases List.mem_cons.1 hm with he | hm
    · obtain ⟨rfl, rfl⟩ := Prod.mk.inj he
      exact ⟨hk, hsingle, _, ha, List.mem_cons_self⟩
    · obtain ⟨hk, hsingle, name, ha, hname⟩ := ih a link hm
      exact ⟨hk, hsingle, name, ha, List.mem_cons_of_mem _ hname⟩

/-- A relationship is a key or a link. -/
theorem exists_of_mem : ∀ name link, (name, link) ∈ relationships →
    ∃ a, r.association? schema name = some a ∧
      ((∃ key ∈ keys, key.association = a ∧ link.targets = key.id.toList.map .byId) ∨
        (a, link) ∈ links) := by
  induction h with
  | nil => exact fun _ _ hm => absurd hm List.not_mem_nil
  | key ha hk htargets _ ih =>
    intro name link hm
    rcases List.mem_cons.1 hm with he | hm
    · obtain ⟨rfl, rfl⟩ := Prod.mk.inj he
      exact ⟨_, ha, .inl ⟨_, List.mem_cons_self, rfl, htargets⟩⟩
    · obtain ⟨a, ha, ⟨key, hkey, he⟩ | hlink⟩ := ih name link hm
      · exact ⟨a, ha, .inl ⟨key, List.mem_cons_of_mem _ hkey, he⟩⟩
      · exact ⟨a, ha, .inr hlink⟩
  | link ha _ _ _ ih =>
    intro name link hm
    rcases List.mem_cons.1 hm with he | hm
    · obtain ⟨rfl, rfl⟩ := Prod.mk.inj he
      exact ⟨_, ha, .inr List.mem_cons_self⟩
    · obtain ⟨a, ha, hkey | hlink⟩ := ih name link hm
      · exact ⟨a, ha, .inl hkey⟩
      · exact ⟨a, ha, .inr (List.mem_cons_of_mem _ hlink)⟩

end Sorts

end Parts

/-! ## Targets that are there -/

/-- The identifier of an existing row. -/
def LinkTarget.id? : LinkTarget → Option Json
  | byId id => some id
  | create _ => none

/-- The identifiers of the existing rows that a link leads to. -/
def Link.ids (link : Link) : List Json := link.targets.filterMap LinkTarget.id?

/-! ## Steps -/

namespace Engine

open Action Session

section

variable (hl : TablesLinked r.tables)
include hl

/-- The required identifiers are found. -/
theorem required_of_requireExisting {ids : List Json} {u : Unit}
    (h : Takes r (requireExisting scope a ids) db u db') : db' = db ∧ Required a.target ids db := by
  unfold requireExisting at h
  split at h
  · rename_i hempty
    obtain ⟨-, rfl⟩ := h.of_pure
    obtain rfl := List.isEmpty_iff.1 hempty
    exact ⟨rfl, [], rfl, List.forall_mem_nil _⟩
  · obtain ⟨found, mid, hfound, hrest⟩ := h.of_bind hl
    obtain ⟨hexisting, rfl⟩ := hfound.of_existingIds
    split at hrest
    · exact absurd hrest Takes.not_throw
    · rename_i hnone
      obtain ⟨-, rfl⟩ := hrest.of_pure
      refine ⟨rfl, found, hexisting, fun id hid => ?_⟩
      simpa using List.find?_eq_none.1 hnone id hid

/-- The required identifiers are those of rows. -/
theorem of_requireExisting (hc : r.Creatable) (ht : a.target ∈ r.schemas) {ids : List Json}
    {u : Unit} (h : Takes r (requireExisting scope a ids) db u db') :
    db' = db ∧ ∀ id ∈ ids, db.HasRow a.target id := by
  obtain ⟨rfl, hrequired⟩ := required_of_requireExisting hl h
  exact ⟨rfl, hrequired.hasRow h.regular hc ht⟩

/-- Keys are put into the row and noted once the rows they refer to are found. -/
theorem of_inlineKeys {keys : List OwnKey} {row related : Object} {out : Object × Object}
    (h : Takes r (inlineKeys scope keys row related) db out db') :
    db' = db ∧ out = (row.insertAll (keys.map fun key => (key.field, key.value)),
        related.insertAll (keys.map fun key => (key.association.name, key.value))) ∧
      ∀ key ∈ keys, ∀ id, key.id = some id → Required key.association.target [id] db := by
  induction keys generalizing row related with
  | nil =>
    obtain ⟨rfl, rfl⟩ := h.of_pure
    exact ⟨rfl, rfl, List.forall_mem_nil _⟩
  | cons key rest ih =>
    unfold inlineKeys at h
    split at h
    · rename_i id hid
      obtain ⟨u, mid, hrequire, hrest⟩ := h.of_bind hl
      obtain ⟨rfl, hrequired⟩ := required_of_requireExisting hl hrequire
      obtain ⟨rfl, rfl, hall⟩ := ih hrest
      refine ⟨rfl, by simp [Object.insertAll, OwnKey.value, hid], ?_⟩
      refine List.forall_mem_cons.2 ⟨fun other ho => ?_, hall⟩
      obtain rfl := Option.some.inj (hid.symm.trans ho)
      exact hrequired
    · rename_i hid
      obtain ⟨rfl, rfl, hall⟩ := ih h
      refine ⟨rfl, by simp [Object.insertAll, OwnKey.value], ?_⟩
      exact List.forall_mem_cons.2 ⟨fun id ho => absurd ho (hid id), hall⟩

theorem of_fillId {row out : Object} (h : Takes r (fillId schema row) db out db') :
    db' = db ∧ (out = row ∨ ∃ id, out = row.insert schema.idField id) := by
  unfold fillId at h
  split at h
  · obtain ⟨id, mid, hdrawn, hrest⟩ := h.of_bind hl
    obtain rfl := hdrawn.of_drawn
    obtain ⟨rfl, rfl⟩ := hrest.of_pure
    exact ⟨rfl, .inr ⟨_, rfl⟩⟩
  · obtain ⟨rfl, rfl⟩ := h.of_pure
    exact ⟨rfl, .inl rfl⟩

theorem of_assignId {given : Option Json} {row out : Object}
    (h : Takes r (assignId schema given row) db out db') :
    db' = db ∧ row.SameBeside schema.idField out := by
  unfold assignId at h
  obtain ⟨rfl, hout⟩ := of_fillId hl h
  have hgiven := row.sameBeside_given schema.idField given
  rcases hout with rfl | ⟨id, rfl⟩
  · exact ⟨rfl, hgiven⟩
  · exact ⟨rfl, hgiven.insert id⟩

omit hl in
theorem get?_of_primaryKey {row : Object} {id : Json} (h : primaryKey schema row = .ok id) :
    row.get? schema.idField = some id := by
  unfold primaryKey at h
  split at h
  · rename_i other hother
    rw [hother, Except.ok.inj h]
  · cases h

/-- To read a record again is to leave the database alone. -/
theorem of_reload {id : Json} {related : Object} {record : Record}
    (h : Takes r (reload r scope schema id related) db record db') :
    db' = db ∧ record.id = id ∧ record.relationships = related ∧
      ∃ rest, found schema (reloadPlan r schema id) r db = .ok (record.attributes :: rest) := by
  obtain ⟨row, mid, hfind, hpure⟩ := h.of_bind hl
  obtain ⟨rfl, rfl⟩ := hpure.of_pure
  obtain ⟨rows, mid, hfind, hrow⟩ := hfind.of_bind hl
  obtain ⟨hfound, rfl⟩ := hfind.of_find
  split at hrow
  · obtain ⟨rfl, rfl⟩ := hrow.of_pure
    exact ⟨rfl, rfl, rfl, _, hfound⟩
  · exact absurd hrow Takes.not_throw

omit hl in
/-- The targets of a link have identifiers: those that it names, and those of created rows. -/
structure Resolved (r : Registry) (a : Association) (link : Link) (db : Database) (ids : List Json)
    (db' : Database) : Prop where
  length : ids.length = link.targets.length
  named : ∀ id, .byId id ∈ link.targets → id ∈ ids
  found : ∀ id ∈ ids, db'.HasRow a.target id
  fresh : ∀ id ∈ ids, .byId id ∈ link.targets ∨ ¬db.HasRow a.target id
  creates : ∃ rows objects, Creates r a.target db rows objects db' ∧
    ∀ row ∈ rows, ∃ given, .create given ∈ link.targets ∧ given.SameBeside a.target.idField row

omit hl in
theorem length_targets (targets : List LinkTarget) :
    (targets.filterMap fun | .byId id => some id | .create _ => none).length +
      (targets.filterMap fun | .byId _ => none | .create row => some row).length =
        targets.length := by
  induction targets with
  | nil => rfl
  | cons target rest ih =>
    cases target <;> simp <;> omega

/-- **Targets are resolved.** -/
theorem resolved_of_resolveTargets (hc : r.Creatable) (ht : a.target ∈ r.schemas) {link : Link}
    {ids : List Json} (h : Takes r (resolveTargets scope a link) db ids db') :
    Resolved r a link db ids db' := by
  have hdb := h.regular
  have hlength := length_targets link.targets
  unfold resolveTargets at h
  dsimp only at h
  generalize hids : (link.targets.filterMap fun
    | .byId id => some id
    | .create _ => none) = named at h hlength
  generalize hrows : (link.targets.filterMap fun
    | .byId _ => none
    | .create row => some row) = given at h hlength
  obtain ⟨rows, mid, hfill, hrest⟩ := h.of_bind hl
  obtain ⟨u, mid', hrequire, hlast⟩ := hrest.of_bind hl
  obtain ⟨rfl, hfilled⟩ := hfill.of_mapM hl fun row _ db out db' h => (of_fillId hl h).1
  obtain ⟨rfl, hfound⟩ := of_requireExisting hl hc ht hrequire
  have hnamed : ∀ id, .byId id ∈ link.targets → id ∈ named := fun id hid =>
    hids ▸ List.mem_filterMap.2 ⟨_, hid, rfl⟩
  have hbyId : ∀ id ∈ named, .byId id ∈ link.targets := by
    intro id hid
    rw [← hids] at hid
    obtain ⟨target, htarget, he⟩ := List.mem_filterMap.1 hid
    cases target with
    | byId other => exact Option.some.inj he ▸ htarget
    | create row => cases he
  have hgiven : ∀ row ∈ rows, ∃ given, .create given ∈ link.targets ∧
      given.SameBeside a.target.idField row := by
    intro row hrow
    obtain ⟨given, hm, hfills⟩ := exists_of_forall₂ hfilled hrow
    rw [← hrows] at hm
    obtain ⟨target, htarget, he⟩ := List.mem_filterMap.1 hm
    refine ⟨given, ?_, ?_⟩
    · cases target with
      | byId id => cases he
      | create row => exact Option.some.inj he ▸ htarget
    · rcases (of_fillId hl hfills).2 with rfl | ⟨id, rfl⟩
      · exact .refl _ row
      · exact (Object.SameBeside.refl _ given).insert id
  rw [hfilled.length_eq] at hlength
  split at hlast
  · rename_i hempty
    obtain ⟨rfl, rfl⟩ := hlast.of_pure
    obtain rfl := List.isEmpty_iff.1 hempty
    exact ⟨by simpa using hlength, hnamed, hfound, fun id hid => .inl (hbyId id hid), [], [],
      .nil _, hgiven⟩
  · obtain ⟨objects, mid, hcreate, hrest⟩ := hlast.of_bind hl
    obtain ⟨keys, mid', hkeys, hpure⟩ := hrest.of_bind hl
    obtain ⟨rfl, rfl⟩ := hpure.of_pure
    obtain ⟨rfl, hall⟩ := hkeys.of_mapM hl fun row _ db out db' h => h.of_liftM.2
    have hcreates := hcreate.of_bulkCreate
    refine ⟨?_, fun id hid => List.mem_append_left _ (hnamed id hid), fun id hid => ?_,
      fun id hid => ?_, rows, objects, hcreates, hgiven⟩
    · rw [List.length_append, ← hall.length_eq, hcreates.length_eq, hlength]
    · rcases List.mem_append.1 hid with hid | hid
      · exact hcreates.rowsStay _ ht id (hfound id hid)
      · obtain ⟨object, hobject, hkey⟩ := exists_of_forall₂ hall hid
        exact hcreates.hasRow hc ht hl hdb object hobject id (get?_of_primaryKey hkey.of_liftM.1)
    · refine (List.mem_append.1 hid).imp (hbyId id) fun hid => ?_
      obtain ⟨object, hobject, hkey⟩ := exists_of_forall₂ hall hid
      exact hcreates.not_hasRow hc ht hl hdb object hobject id (get?_of_primaryKey hkey.of_liftM.1)

/-- Links are written one after the other, and noted as related. -/
inductive LinksWritten (r : Registry) (parent : Json) (replace : Bool) :
    Database → List (Association × Link) → Object → Object → Database → Prop
  | nil (db : Database) (related : Object) : LinksWritten r parent replace db [] related related db
  | cons {db mid next db' : Database} {a : Association} {link : Link} {ids : List Json}
      {rest : List (Association × Link)} {related noted : Object} :
      Resolved r a link db ids mid → mid.Executes (Statement.ofLinks a parent ids replace) next →
      LinksWritten r parent replace next rest (related.insert a.name (linkedIds a ids)) noted db' →
      LinksWritten r parent replace db ((a, link) :: rest) related noted db'

theorem linksWritten_of_writeLinks (hc : r.Creatable) {parent : Json} {replace : Bool}
    {write : Association → List Json → Operation}
    (hwrite : ∀ a ids db answer db', Takes r (Action.perform scope (write a ids)) db answer db' →
      db.Executes (Statement.ofLinks a parent ids replace) db')
    {links : List (Association × Link)} {related noted : Object}
    (ht : ∀ x ∈ links, x.1.target ∈ r.schemas)
    (h : Takes r (writeLinks scope write links related) db noted db') :
    LinksWritten r parent replace db links related noted db' := by
  induction links generalizing related db with
  | nil =>
    obtain ⟨rfl, rfl⟩ := h.of_pure
    exact .nil db' noted
  | cons x rest ih =>
    obtain ⟨a, link⟩ := x
    obtain ⟨hfirst, hothers⟩ := List.forall_mem_cons.1 ht
    unfold writeLinks at h
    obtain ⟨ids, mid, hresolve, hrest⟩ := h.of_bind hl
    obtain ⟨answer, next, hlink, hlast⟩ := hrest.of_bind hl
    exact .cons (resolved_of_resolveTargets hl hc hfirst hresolve) (hwrite _ _ _ _ _ hlink)
      (ih hothers hlast)

end

/-! ## Writes -/

end Engine

namespace Parts

/-- The associations of the relationships. -/
def associations (p : Parts) : List Association :=
  p.keys.map (·.association) ++ p.links.map (·.1)

/-- The row with its keys. -/
def row (p : Parts) : Object :=
  p.attributes.insertAll (p.keys.map fun key => (key.field, key.value))

/-- The keys of the row, as they are noted as related. -/
def noted (p : Parts) : Object :=
  Object.insertAll [] (p.keys.map fun key => (key.association.name, key.value))

/-- The keys of the row refer to rows, or to none. -/
def KeysFound (p : Parts) (db : Database) : Prop :=
  ∀ key ∈ p.keys, ∀ id, key.id = some id → db.HasRow key.association.target id

/-- The rows that the keys refer to are looked for and found. -/
def KeysRequired (p : Parts) (db : Database) : Prop :=
  ∀ key ∈ p.keys, ∀ id, key.id = some id → Session.Required key.association.target [id] db

end Parts

namespace Engine

open Action Session

section

variable (hl : TablesLinked r.tables) (hc : r.Creatable) {parts : Parts} {record : Record}
  (ht : ∀ a ∈ parts.associations, a.target ∈ r.schemas)
include hl hc ht

omit hl in
theorem keysFound_of_required (hdb : db.Regular r) (h : parts.KeysRequired db) :
    parts.KeysFound db := fun key hkey id hid =>
  (h key hkey id hid).hasRow hdb hc
    (ht _ (List.mem_append_left _ (List.mem_map_of_mem hkey))) id (List.mem_singleton_self id)

theorem of_inlineKeys_parts {out : Object × Object}
    (h : Takes r (inlineKeys scope parts.keys parts.attributes []) db out db') :
    db' = db ∧ out = (parts.row, parts.noted) ∧ parts.KeysFound db := by
  obtain ⟨rfl, hout, hrequired⟩ := of_inlineKeys hl h
  exact ⟨rfl, hout, keysFound_of_required hc ht h.regular hrequired⟩

/-- What a create with linkage has done. -/
theorem exists_of_createWith {given : Option Json}
    (h : Takes r (createWith scope schema given parts) db record db') :
    ∃ row mid, mid.Regular r ∧ parts.KeysFound db ∧ parts.row.SameBeside schema.idField row ∧
      created schema row r db = .ok (mid, record.attributes) ∧
      record.attributes.get? schema.idField = some record.id ∧
      LinksWritten r record.id false mid parts.links parts.noted record.relationships db' := by
  unfold createWith at h
  obtain ⟨out, mid, hinline, h₁⟩ := h.of_bind hl
  obtain ⟨rfl, rfl, hfound⟩ := of_inlineKeys_parts hl hc ht hinline
  obtain ⟨row, mid', hassign, h₂⟩ := h₁.of_bind hl
  obtain ⟨rfl, hrow⟩ := of_assignId hl hassign
  obtain ⟨object, mid, hcreate, h₃⟩ := h₂.of_bind hl
  obtain ⟨id, mid', hid, h₄⟩ := h₃.of_bind hl
  obtain ⟨hprimary, rfl⟩ := hid.of_liftM
  obtain ⟨related, last, hwrite, hlast⟩ := h₄.of_bind hl
  obtain ⟨rfl, rfl⟩ := hlast.of_pure
  refine ⟨row, mid', hcreate.regular_after hl, hfound, hrow, hcreate.of_create,
    get?_of_primaryKey hprimary, ?_⟩
  exact linksWritten_of_writeLinks hl hc (fun _ _ _ _ _ h => h.of_addLinks)
    (fun x hx => ht x.1 (List.mem_append_right _ (List.mem_map_of_mem hx))) hwrite

omit hc ht in
/-- What an update with linkage has done before it writes its links. -/
theorem exists_takes_of_updateWith {id : Json}
    (h : Takes r (updateWith r scope schema id parts) db record db') :
    ∃ found mid, existing schema [id] db = .ok found ∧ found ≠ [] ∧ parts.KeysRequired db ∧
      Sets r schema id parts.row db mid ∧
      Takes r (writeLinks scope (fun a ids => .setLinks a id ids) parts.links parts.noted >>=
        fun related => reload r scope schema id related) mid record db' := by
  unfold updateWith at h
  dsimp only at h
  obtain ⟨found, mid, hexisting, h₁⟩ := h.of_bind hl
  obtain ⟨hfound, rfl⟩ := hexisting.of_existingIds
  split at h₁
  · obtain ⟨u, mid, hthrow, -⟩ := h₁.of_bind hl
    exact absurd hthrow Takes.not_throw
  rename_i hne
  obtain ⟨out, mid, hinline, h₂⟩ := h₁.of_bind hl
  obtain ⟨rfl, rfl, hkeys⟩ := of_inlineKeys hl hinline
  refine ⟨found, ?_⟩
  change Takes r (if !parts.row.isEmpty then _ else _) _ _ _ at h₂
  split at h₂
  · rename_i hempty
    obtain ⟨n, mid, hupdate, h₃⟩ := h₂.of_bind hl
    exact ⟨mid, hfound, by simpa using hne, hkeys, .inr ⟨by simpa using hempty, n,
      hupdate.of_update⟩, h₃⟩
  · rename_i hempty
    exact ⟨_, hfound, by simpa using hne, hkeys, .inl ⟨by simpa using hempty, rfl⟩, h₂⟩

/-- What an update with linkage has done. -/
theorem exists_of_updateWith {id : Json}
    (h : Takes r (updateWith r scope schema id parts) db record db') :
    ∃ found mid, mid.Regular r ∧ existing schema [id] db = .ok found ∧ found ≠ [] ∧
      parts.KeysFound db ∧ Sets r schema id parts.row db mid ∧
      LinksWritten r id true mid parts.links parts.noted record.relationships db' ∧
      record.id = id := by
  obtain ⟨found, mid, hfound, hne, hkeys, hsets, hlast⟩ := exists_takes_of_updateWith hl h
  obtain ⟨related, last, hwrite, hreload⟩ := hlast.of_bind hl
  obtain ⟨rfl, hid, rfl, -⟩ := of_reload hl hreload
  refine ⟨found, mid, hlast.regular, hfound, hne, keysFound_of_required hc ht h.regular hkeys,
    hsets, ?_, hid⟩
  refine linksWritten_of_writeLinks hl hc (fun _ _ _ _ _ h => h.of_setLinks) (fun x hx => ?_) hwrite
  exact ht x.1 (List.mem_append_right _ (List.mem_map_of_mem hx))

end

/-! ## Payloads -/

section

variable {payload : Payload}

/-- The targets of a payload's relationships are schemas of the registry. -/
theorem target_mem_of_parts (h : Registry.assemble schemas = .ok r) (hs : schema ∈ r.schemas)
    {p : Parts} (hparts : parts r schema payload = .ok p) :
    ∀ b ∈ p.associations, b.target ∈ r.schemas := by
  intro b hb
  obtain ⟨name, hfound⟩ := (Parts.sorts_of_parts hparts).2.exists_name b hb
  exact ((Registry.coherent_of_assemble h).of_association? hs hfound).2

/-- A create that succeeds has created a row with its linkage. -/
theorem exists_takes_createWith (hl : TablesLinked r.tables) {record : Record} :
    ∀ action ∈ [create r schema payload, createIn r schema payload],
      Takes r action db record db' → ∃ p scope, parts r schema payload = .ok p ∧
        Takes r (createWith scope schema payload.id p) db record db' := by
  intro action haction ht
  rcases List.mem_pair.1 haction with rfl | rfl
  · by_cases hr : payload.relationships = []
    · rw [create_eq_createWith hr] at ht
      exact ⟨_, .store, parts_of_unlinked hr, ht⟩
    · obtain ⟨p, mid, hchecked, -⟩ := ht.of_bind hl
      have hp := hchecked.of_liftM.1
      rw [create_eq_inTransaction r schema payload hp hr] at ht
      exact ⟨p, .transaction, hp, ht.of_inTransaction hl⟩
  · obtain ⟨p, mid, hchecked, hwork⟩ := ht.of_bind hl
    obtain ⟨hp, rfl⟩ := hchecked.of_liftM
    exact ⟨p, .transaction, hp, hwork⟩

end

end Engine

end ResourceApi
