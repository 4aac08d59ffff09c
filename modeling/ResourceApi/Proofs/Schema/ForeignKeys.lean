import ResourceApi.Proofs.Schema.Assembly
import ResourceApi.Sql.Definition

/-!
# Key columns

An association that is stored in a key needs a column for it. Several associations can need the
same column of the same table: both directions of one link do, and so do associations of different
schemas whose key names happen to agree. The table has the column once.

**Theorem (`Registry.first_association_decides`).** Unless a declared field provides it, the column
refers to the schema at the other end of the *first* association that needs it, in order of
registration and declaration.

Key columns are collected in one pass over the associations. Its invariant is that a lookup in the
entries collected so far answers with the first association that needs the column.
-/

namespace ResourceApi

/-! ## What an association needs -/

/-- The association is stored in a key in the rows of `owner` that refers to `other`. -/
inductive Association.KeyOn (a : Association) : Schema → String → Schema → Prop
  | belongsTo {key : String} : a.kind = .belongsTo key → KeyOn a a.source key a.target
  | hasOne {key : String} : a.kind = .hasOne key → KeyOn a a.target key a.source
  | hasMany {key : String} : a.kind = .hasMany key → KeyOn a a.target key a.source

namespace Association

variable {a : Association} {owner other : Schema} {field : String}

theorem keyHolder?_eq_some :
    a.keyHolder? = some (owner, field, other) ↔ a.KeyOn owner field other := by
  unfold keyHolder?
  constructor
  · intro h
    split at h
    · rename_i hk
      cases h
      exact .belongsTo hk
    · rename_i hk
      cases h
      exact .hasOne hk
    · rename_i hk
      cases h
      exact .hasMany hk
    · cases h
  · rintro (hk | hk | hk) <;> rw [hk]

/-- An association is stored in one key. -/
theorem KeyOn.unique (h : a.KeyOn owner field other) {o t : Schema} {f : String}
    (h' : a.KeyOn o f t) : (owner, field, other) = (o, f, t) :=
  Option.some.inj ((keyHolder?_eq_some.2 h).symm.trans (keyHolder?_eq_some.2 h'))

/-- Whether the association needs a column of this table for its key. -/
def needs (owner : Schema) (field : String) (a : Association) : Bool :=
  a.keyHolder?.any fun (o, f, _) => o.fullName = owner.fullName && f = field

theorem needs_of_keyOn (h : a.KeyOn owner field other) : a.needs owner field := by
  simp [needs, keyHolder?_eq_some.2 h]

theorem exists_keyOn_of_needs (h : a.needs owner field) :
    ∃ o other, a.KeyOn o field other ∧ o.fullName = owner.fullName := by
  obtain ⟨⟨o, f, other⟩, hk, hm⟩ := (Option.any_eq_true _ _).1 h
  simp only [Bool.and_eq_true, decide_eq_true_eq] at hm
  obtain ⟨ho, rfl⟩ := hm
  exact ⟨o, other, keyHolder?_eq_some.1 hk, ho⟩

end Association

/-! ## Collecting the columns -/

/-- Whether an entry is for this column. -/
def ForeignKey.isFor (owner : Schema) (field : String) (k : ForeignKey) : Bool :=
  k.owner = owner.fullName && k.field = field

@[simp] theorem ForeignKey.isFor_iff {owner : Schema} {field : String} {k : ForeignKey} :
    k.isFor owner field ↔ k.owner = owner.fullName ∧ k.field = field := by
  simp [isFor]

namespace Registry

/-- The entry for a column of a table. -/
def foreignKey? (keys : List ForeignKey) (owner : Schema) (field : String) : Option ForeignKey :=
  keys.find? (·.isFor owner field)

/-- No two entries are for the same column. -/
def OncePerColumn (keys : List ForeignKey) : Prop := (keys.map fun k => (k.owner, k.field)).Nodup

/-- An association adds an entry if it needs a column that neither a field nor an earlier entry
provides. -/
theorem addForeignKey_cases (keys : List ForeignKey) (a : Association) :
    (∃ owner field other, a.KeyOn owner field other ∧ owner.hasField field = false ∧
      foreignKey? keys owner field = none ∧
      addForeignKey keys a = keys ++ [⟨owner.fullName, field, other⟩]) ∨
    (addForeignKey keys a = keys ∧ ∀ owner field other, a.KeyOn owner field other →
      owner.hasField field = false → (foreignKey? keys owner field).isSome) := by
  unfold addForeignKey
  split
  · rename_i hk
    refine .inr ⟨rfl, fun owner field other h _ => ?_⟩
    rw [Association.keyHolder?_eq_some.2 h] at hk
    cases hk
  · rename_i owner field other hk
    split
    · rename_i hp
      refine .inr ⟨rfl, fun owner' field' other' h hf => ?_⟩
      rw [Association.keyHolder?_eq_some.2 h] at hk
      cases hk
      rw [hf, Bool.false_or] at hp
      exact List.find?_isSome.2 (by simpa using hp)
    · rename_i hp
      rw [Bool.or_eq_true, not_or] at hp
      exact .inl ⟨owner, field, other, Association.keyHolder?_eq_some.1 hk, by simpa using hp.1,
        List.find?_eq_none.2 (by simpa using hp.2), rfl⟩

theorem oncePerColumn_nil : OncePerColumn [] := List.nodup_nil

theorem oncePerColumn_addForeignKey {keys : List ForeignKey} (h : OncePerColumn keys)
    (a : Association) : OncePerColumn (addForeignKey keys a) := by
  obtain ⟨owner, field, other, -, -, hnone, he⟩ | ⟨he, -⟩ := addForeignKey_cases keys a
  · rw [he]
    unfold OncePerColumn
    rw [List.map_append, List.nodup_append]
    refine ⟨h, List.nodup_singleton _, ?_⟩
    rintro _ hk _ hn rfl
    obtain ⟨k, hm, hk⟩ := List.mem_map.1 hk
    simp only [List.map_cons, List.map_nil, List.mem_singleton] at hn
    obtain ⟨ho, hf⟩ := Prod.mk.inj (hk.trans hn)
    exact List.find?_eq_none.1 hnone k hm (ForeignKey.isFor_iff.2 ⟨ho, hf⟩)
  · rwa [he]

theorem oncePerColumn_foldl {keys : List ForeignKey} (h : OncePerColumn keys)
    (associations : List Association) : OncePerColumn (associations.foldl addForeignKey keys) := by
  induction associations generalizing keys with
  | nil => exact h
  | cons a rest ih => exact ih (oncePerColumn_addForeignKey h a)

/-- Every entry is for an undeclared column that some association needs. -/
theorem exists_keyOn_of_mem_foldl {keys : List ForeignKey} {associations : List Association}
    {k : ForeignKey} (h : k ∈ associations.foldl addForeignKey keys) :
    k ∈ keys ∨ ∃ a ∈ associations, ∃ owner, a.KeyOn owner k.field k.references ∧
      owner.fullName = k.owner ∧ owner.hasField k.field = false := by
  induction associations generalizing keys with
  | nil => exact .inl h
  | cons a rest ih =>
    rcases ih h with hk | ⟨b, hb, hneeds⟩
    · obtain ⟨owner, field, other, hon, hf, -, he⟩ | ⟨he, -⟩ := addForeignKey_cases keys a
      · rw [he, List.mem_append, List.mem_singleton] at hk
        rcases hk with hk | rfl
        · exact .inl hk
        · exact .inr ⟨a, by simp, owner, hon, rfl, hf⟩
      · rw [he] at hk
        exact .inl hk
    · exact .inr ⟨b, by simp [hb], hneeds⟩

/-! ## The first association decides -/

section

variable {owner : Schema} {field : String} {done associations : List Association}
  {keys : List ForeignKey}

/-- The entry for a column comes from the first association that needs the column. -/
def FirstDecides (owner : Schema) (field : String) (done : List Association)
    (keys : List ForeignKey) : Prop :=
  Option.Rel (fun first k => first.KeyOn owner field k.references)
    (done.find? (·.needs owner field)) (foreignKey? keys owner field)

/-- An entry stays when entries are added. -/
theorem foreignKey?_addForeignKey_of_some {k : ForeignKey}
    (h : foreignKey? keys owner field = some k) (a : Association) :
    foreignKey? (addForeignKey keys a) owner field = some k := by
  obtain ⟨o, f, other, -, -, -, he⟩ | ⟨he, -⟩ := addForeignKey_cases keys a
  · rw [he, foreignKey?, List.find?_append, ← foreignKey?, h, Option.some_or]
  · rw [he, h]

/-- A new entry is for a column that the association needs. -/
theorem foreignKey?_addForeignKey_of_none (h : foreignKey? keys owner field = none)
    {a : Association} (hn : ¬ a.needs owner field) :
    foreignKey? (addForeignKey keys a) owner field = none := by
  obtain ⟨o, f, other, hon, -, -, he⟩ | ⟨he, -⟩ := addForeignKey_cases keys a
  · have hne : ¬ (o.fullName = owner.fullName ∧ f = field) := by
      rintro ⟨ho, rfl⟩
      exact hn (by simp [Association.needs, Association.keyHolder?_eq_some.2 hon, ho])
    rw [he, foreignKey?, List.find?_append, ← foreignKey?, h, Option.none_or]
    simpa using hne
  · rw [he, h]

/-- An association that needs a missing column adds it. -/
theorem foreignKey?_addForeignKey_of_needs (h : foreignKey? keys owner field = none)
    {a : Association} {other : Schema} (hon : a.KeyOn owner field other)
    (hf : owner.hasField field = false) :
    foreignKey? (addForeignKey keys a) owner field = some ⟨owner.fullName, field, other⟩ := by
  obtain ⟨o, f, t, hon', -, -, he⟩ | ⟨-, hsome⟩ := addForeignKey_cases keys a
  · cases hon'.unique hon
    rw [he, foreignKey?, List.find?_append, ← foreignKey?, h, Option.none_or]
    simp
  · have := hsome owner field other hon hf
    simp [h] at this

theorem firstDecides_addForeignKey {a : Association} (hf : owner.hasField field = false)
    (hsame : ∀ o f other, a.KeyOn o f other → o.fullName = owner.fullName → o = owner)
    (h : FirstDecides owner field done keys) :
    FirstDecides owner field (done ++ [a]) (addForeignKey keys a) := by
  unfold FirstDecides at h ⊢
  rw [List.find?_append]
  cases hd : done.find? (·.needs owner field) with
  | some first =>
    rw [hd] at h
    cases hk : foreignKey? keys owner field with
    | none => rw [hk] at h; cases h
    | some k =>
      rw [hk] at h
      rwa [foreignKey?_addForeignKey_of_some hk, Option.some_or]
  | none =>
    rw [hd] at h
    cases hk : foreignKey? keys owner field with
    | some k => rw [hk] at h; cases h
    | none =>
      by_cases hn : a.needs owner field = true
      · obtain ⟨o, other, hon, ho⟩ := Association.exists_keyOn_of_needs hn
        obtain rfl := hsame o field other hon ho
        rw [foreignKey?_addForeignKey_of_needs hk hon hf, Option.none_or,
          List.find?_cons_of_pos hn]
        exact .some hon
      · rw [foreignKey?_addForeignKey_of_none hk hn, Option.none_or, List.find?_cons_of_neg hn]
        exact .none

theorem firstDecides_foldl (hf : owner.hasField field = false)
    (hsame : ∀ a ∈ associations, ∀ o f other, a.KeyOn o f other → o.fullName = owner.fullName →
      o = owner)
    (h : FirstDecides owner field done keys) :
    FirstDecides owner field (done ++ associations) (associations.foldl addForeignKey keys) := by
  induction associations generalizing done keys with
  | nil => simpa using h
  | cons a rest ih =>
    have hstep := firstDecides_addForeignKey hf (hsame a (by simp)) h
    simpa using ih (fun b hb => hsame b (by simp [hb])) hstep

end

/-! ## Key columns of assembled registries -/

/-- Associations stand in the order in which schemas are registered and relationships declared. -/
theorem associations_of_assemble {schemas : List Schema} {r : Registry}
    (h : assemble schemas = .ok r) : r.associations.map (fun a => (a.source, a.name)) =
      schemas.flatMap fun s => s.relationshipNames.map fun name => (s, name) := by
  obtain ⟨-, -, associations, hassoc, rfl⟩ := assemble_eq_ok h
  obtain ⟨lists, hlists, rfl⟩ := flatMapM_eq_ok hassoc
  have hnamed : List.Forall₂ (fun s list => list.map (fun a : Association => (a.source, a.name)) =
      s.relationshipNames.map fun name => (s, name)) schemas lists := by
    refine hlists.imp fun s list hlist => ?_
    unfold Schema.relationshipNames
    rw [List.map_map]
    refine map_eq_map_of_forall₂ ((mapM_eq_ok.1 hlist).imp fun x a ha => ?_)
    obtain ⟨hname, hsource, -⟩ := resolve_eq_ok ha
    rw [hname, hsource, Function.comp_apply]
  rw [List.map_flatten, map_eq_map_of_forall₂ hnamed, List.flatMap_def]

theorem foreignKeys_of_assemble {schemas : List Schema} {r : Registry}
    (h : assemble schemas = .ok r) : r.foreignKeys = r.associations.foldl addForeignKey [] := by
  obtain ⟨-, -, associations, -, rfl⟩ := assemble_eq_ok h
  rfl

theorem oncePerColumn_of_assemble {schemas : List Schema} {r : Registry}
    (h : assemble schemas = .ok r) : OncePerColumn r.foreignKeys := by
  rw [foreignKeys_of_assemble h]
  exact oncePerColumn_foldl oncePerColumn_nil r.associations

namespace Coherent

variable {r : Registry} {a : Association} {owner other : Schema} {field : String}

theorem mem_of_keyOn (h : r.Coherent) (ha : a ∈ r.associations) (hk : a.KeyOn owner field other) :
    owner ∈ r.schemas := by
  cases hk with
  | belongsTo => exact h.source a ha
  | hasOne => exact h.target a ha
  | hasMany => exact h.target a ha

end Coherent

/-- A lookup finds all the entries for a column if there is one for each column. -/
theorem filter_eq_of_foreignKey? {keys : List ForeignKey} (h : OncePerColumn keys) {owner : Schema}
    {field : String} {k : ForeignKey} (hk : foreignKey? keys owner field = some k) :
    keys.filter (·.isFor owner field) = [k] := by
  induction keys with
  | nil => cases hk
  | cons first rest ih =>
    obtain ⟨hfirst, hrest⟩ := List.nodup_cons.1 h
    unfold foreignKey? at hk
    by_cases hm : first.isFor owner field = true
    · rw [List.find?_cons_of_pos hm] at hk
      cases hk
      rw [List.filter_cons_of_pos hm, List.filter_eq_nil_iff.2]
      intro other hother ho
      rw [ForeignKey.isFor_iff] at hm ho
      exact hfirst (List.mem_map.2 ⟨other, hother, by simp only [ho, hm]⟩)
    · rw [List.find?_cons_of_neg hm] at hk
      rw [List.filter_cons_of_neg hm]
      exact ih hrest hk

/-- The entry for an undeclared column, and the first association that needs it. -/
theorem exists_first_of_keyOn {schemas : List Schema} {r : Registry}
    (h : assemble schemas = .ok r) {a : Association} (ha : a ∈ r.associations)
    {owner other : Schema} {field : String} (hk : a.KeyOn owner field other)
    (hf : owner.hasField field = false) :
    ∃ first k, r.associations.find? (·.needs owner field) = some first ∧
      first.KeyOn owner field k.references ∧ foreignKey? r.foreignKeys owner field = some k := by
  have hcoherent := coherent_of_assemble h
  have howner := hcoherent.mem_of_keyOn ha hk
  have hstart : FirstDecides owner field [] [] := .none
  have hdecides := firstDecides_foldl hf (fun b hb o f t hon ho =>
    hcoherent.eq_of_fullName (hcoherent.mem_of_keyOn hb hon) howner ho) hstart
  rw [List.nil_append, ← foreignKeys_of_assemble h] at hdecides
  unfold FirstDecides at hdecides
  cases hfind : r.associations.find? (·.needs owner field) with
  | none =>
    exact absurd (Association.needs_of_keyOn hk) (List.find?_eq_none.1 hfind a ha)
  | some first =>
    cases hkey : foreignKey? r.foreignKeys owner field with
    | none => rw [hfind, hkey] at hdecides; cases hdecides
    | some k =>
      rw [hfind, hkey] at hdecides
      obtain ⟨hon⟩ := hdecides
      exact ⟨first, k, rfl, hon, rfl⟩

theorem mem_foreignKeysOf {r : Registry} {owner : Schema} {field : String} {k : ForeignKey}
    (hk : foreignKey? r.foreignKeys owner field = some k) :
    k ∈ r.foreignKeysOf owner ∧ k.field = field := by
  have hfor := ForeignKey.isFor_iff.1 (List.find?_some hk)
  exact ⟨by simpa [foreignKeysOf, hfor.1] using List.mem_of_find?_eq_some hk, hfor.2⟩

/-- The table of a schema has its derived keys. -/
theorem foreignKeyDefinition_mem {r : Registry} {owner : Schema} {k : ForeignKey}
    (hk : k ∈ r.foreignKeysOf owner) : foreignKeyDefinition k ∈ (r.tableOf owner).columns :=
  List.mem_cons_of_mem _
    (List.mem_append_right _ (List.mem_map_of_mem (f := foreignKeyDefinition) hk))

/-- **The first association decides what a key column refers to.** -/
theorem first_association_decides {schemas : List Schema} {r : Registry}
    (h : assemble schemas = .ok r) {a : Association} (ha : a ∈ r.associations)
    {owner other : Schema} {field : String} (hk : a.KeyOn owner field other)
    (hf : owner.hasField field = false) :
    r.associations.map (fun b => (b.source, b.name)) =
        schemas.flatMap (fun s => s.relationshipNames.map fun name => (s, name)) ∧
      ∃ first k, r.associations.find? (·.needs owner field) = some first ∧
        first.KeyOn owner field k.references ∧
        (k.references = other ↔ first.KeyOn owner field other) ∧
        (r.foreignKeysOf owner).filter (·.field = field) = [k] ∧
        ⟨columnName field, .ofKey k.references.idType,
            [.references k.references.tableName k.references.idColumn .setNull]⟩
          ∈ (r.tableOf owner).columns := by
  refine ⟨associations_of_assemble h, ?_⟩
  obtain ⟨first, k, hfind, hon, hkey⟩ := exists_first_of_keyOn h ha hk hf
  obtain ⟨hmem, rfl⟩ := mem_foreignKeysOf hkey
  refine ⟨first, k, hfind, hon, ⟨fun he => he ▸ hon, fun ho => ?_⟩, ?_,
    foreignKeyDefinition_mem hmem⟩
  · cases hon.unique ho
    rfl
  · have honce := oncePerColumn_of_assemble h
    rw [foreignKeysOf, List.filter_filter, ← filter_eq_of_foreignKey? honce hkey]
    exact List.filter_congr fun x _ => Bool.and_comm _ _

end Registry

/-! ## Two kinds of users -/

/-- What users have to do. -/
def todo : Schema where
  name := "Todo"

/-- A user, who has things to do. -/
def user : Schema where
  name := "User"
  relationships := [("todos", .hasMany "Todo" none)]

/-- A user of another namespace, who has things to do as well. -/
def adminUser : Schema := { user with space := some "Admin" }

/-- The things a user has to do. -/
def userTodos : Association := ⟨"todos", user, todo, .hasMany "userId"⟩

/-- Both kinds of users need the same column. -/
def duties : Registry where
  schemas := [todo, adminUser, user]
  associations := [⟨"todos", adminUser, todo, .hasMany "userId"⟩, userTodos]
  foreignKeys := [⟨"Todo", "userId", adminUser⟩]

namespace Registry

theorem assemble_duties : assemble [todo, adminUser, user] = .ok duties := by decide +kernel

/-- The column holds the key of the users who were registered first. -/
theorem first_association_duties :
    assemble [todo, adminUser, user] = .ok duties ∧ userTodos ∈ duties.associations ∧
      userTodos.KeyOn todo "userId" user ∧ todo.hasField "userId" = false ∧
      ∃ first k, duties.associations.find? (·.needs todo "userId") = some first ∧
        first.KeyOn todo "userId" k.references ∧
        (k.references = user ↔ first.KeyOn todo "userId" user) ∧
        (duties.foreignKeysOf todo).filter (·.field = "userId") = [k] ∧
        ⟨columnName "userId", .ofKey k.references.idType,
            [.references k.references.tableName k.references.idColumn .setNull]⟩
          ∈ (duties.tableOf todo).columns :=
  have ha : userTodos ∈ duties.associations := by decide
  have hf : todo.hasField "userId" = false := by decide
  ⟨assemble_duties, ha, .hasMany rfl, hf,
    (first_association_decides assemble_duties ha (.hasMany rfl) hf).2⟩

/-- The other users have no key that refers to them. -/
theorem key_refers_to_other_users :
    ¬ ∀ (schemas : List Schema) (r : Registry) (a : Association) (owner other : Schema)
      (field : String), assemble schemas = .ok r → a ∈ r.associations →
      a.KeyOn owner field other → owner.hasField field = false →
      ∀ k ∈ r.foreignKeysOf owner, k.field = field → k.references = other := by
  intro h
  have hk := h _ duties userTodos todo user "userId" assemble_duties (by decide) (.hasMany rfl)
    (by decide) ⟨"Todo", "userId", adminUser⟩ (by decide) rfl
  exact absurd hk (by decide)

end Registry

end ResourceApi
