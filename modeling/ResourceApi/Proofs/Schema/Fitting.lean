import ResourceApi.Proofs.Schema.ForeignKeys

/-!
# Schemas that fit together

What it takes for schemas to form a registry, told without the order in which it is checked
(`Registry.Fit`), and what the tables of the registry then answer (`Registry.Indexes`): every
declared relationship is found as an association, in its place, and every key of an association has
one column.

**Theorem (`Registry.assembles_iff_fit`).** Schemas can be assembled exactly when they fit together,
and an assembled registry indexes them.

Each check of the assembly is an equivalence here, so that the checks of a list of schemas are
collected into one condition in both directions.
-/

namespace ResourceApi

/-! ## What is declared -/

/-- The association is what a relationship of a schema stands for. -/
structure Association.StandsFor (a : Association) (schemas : List Schema) (owner : Schema)
    (declared : String × Relationship) : Prop where
  name : a.name = declared.1
  source : a.source = owner
  target : a.target ∈ schemas
  targetName : a.target.fullName = declared.2.target
  kind : a.kind = .resolve owner a.target declared.1 declared.2
  /-- A join table has two keys. -/
  joinKeys : ∀ join, a.kind = .hasManyThrough join → join.sourceKey ≠ join.targetKey

namespace Registry

/-- The schemas fit together: names are used once, relationships lead to schemas, and join tables
have two keys. -/
structure Fit (schemas : List Schema) : Prop where
  fullNames : (schemas.map (·.fullName)).Nodup
  attributes : ∀ s ∈ schemas, s.attributeNames.Nodup ∧ s.idField ∉ s.attributeNames
  relationships : ∀ s ∈ schemas, s.relationshipNames.Nodup ∧
    ∀ name ∈ s.relationshipNames, name ≠ s.idField ∧ name ∉ s.attributeNames
  targets : ∀ s ∈ schemas, ∀ declared ∈ s.relationships,
    declared.2.target ∈ schemas.map (·.fullName)
  joinKeys : ∀ s ∈ schemas, ∀ declared ∈ s.relationships, ∀ target ∈ schemas,
    target.fullName = declared.2.target → ∀ join,
      AssociationKind.resolve s target declared.1 declared.2 = .hasManyThrough join →
        join.sourceKey ≠ join.targetKey

/-- The registry answers for the schemas: lookups find what is declared, in the order of
declaration, and every key is a field or a derived key. -/
structure Indexes (r : Registry) (schemas : List Schema) : Prop where
  registered : r.schemas = schemas
  association : ∀ schema name, (∃ a, r.association? schema name = some a) ↔
    ∃ s ∈ schemas, s.fullName = schema.fullName ∧ name ∈ s.relationshipNames
  declared : ∀ s ∈ schemas, List.Forall₂ (fun declared a => a.StandsFor schemas s declared)
    s.relationships (r.associationsOf s)
  target : ∀ a ∈ r.associations, r.schema? a.target.fullName = some a.target
  key : ∀ a ∈ r.associations, ∀ owner field other, a.KeyOn owner field other →
    if owner.hasField field then ∀ k ∈ r.foreignKeysOf owner, k.field ≠ field
    else ∃ k, (r.foreignKeysOf owner).filter (·.field = field) = [k]

/-! ## Names -/

theorem checkNames_eq_ok {schema : Schema} : checkNames schema = .ok () ↔ DistinctNames schema := by
  refine ⟨distinctNames_of_checkNames, fun h => ?_⟩
  have hfields : firstRepeated [] schema.allFields = none :=
    firstRepeated_eq_none.2 ⟨h.fields, fun _ _ => List.not_mem_nil⟩
  rw [checkNames, hfields]
  exact checkRelationshipNames_eq_ok.2 ⟨h.disjoint, h.relationships, fun _ _ => List.not_mem_nil⟩

/-- The names of a schema are distinct if its attributes and its relationships are named apart. -/
theorem distinctNames_iff {schema : Schema} : DistinctNames schema ↔
    (schema.attributeNames.Nodup ∧ schema.idField ∉ schema.attributeNames) ∧
      schema.relationshipNames.Nodup ∧ ∀ name ∈ schema.relationshipNames,
        name ≠ schema.idField ∧ name ∉ schema.attributeNames := by
  have hfield (name : String) : schema.hasField name = false ↔
      name ≠ schema.idField ∧ name ∉ schema.attributeNames := by
    rw [← Bool.not_eq_true, Schema.hasField_iff, Schema.allFields, List.mem_cons, not_or]
  constructor
  · intro h
    obtain ⟨hid, hattributes⟩ := List.nodup_cons.1 h.fields
    exact ⟨⟨hattributes, hid⟩, h.relationships, fun name hm => (hfield name).1 (h.disjoint name hm)⟩
  · rintro ⟨⟨hattributes, hid⟩, hrelationships, happart⟩
    exact ⟨List.nodup_cons.2 ⟨hid, hattributes⟩, hrelationships,
      fun name hm => (hfield name).2 (happart name hm)⟩

/-! ## Relationships -/

section

variable {schemas : List Schema} {source : Schema} {declared : String × Relationship}

theorem standsFor_of_resolve {a : Association}
    (h : resolve schemas source declared.1 declared.2 = .ok a) :
    a.StandsFor schemas source declared := by
  unfold resolve at h
  split at h
  · cases h
  · rename_i target ht
    have hm := List.mem_of_find?_eq_some ht
    have hn : target.fullName = declared.2.target := by simpa using List.find?_some ht
    dsimp only at h
    split at h
    · rename_i join hk
      split at h
      · cases h
      · rename_i hne
        cases h
        refine ⟨rfl, rfl, hm, hn, rfl, fun other ho => ?_⟩
        rw [hk] at ho
        cases ho
        exact hne
    · rename_i hk
      cases h
      exact ⟨rfl, rfl, hm, hn, rfl, fun join ho => absurd ho (hk join)⟩

/-- A relationship is resolved if it leads to a schema and its join table has two keys. -/
theorem exists_resolve (ht : declared.2.target ∈ schemas.map (·.fullName))
    (hk : ∀ target ∈ schemas, target.fullName = declared.2.target → ∀ join,
      AssociationKind.resolve source target declared.1 declared.2 = .hasManyThrough join →
        join.sourceKey ≠ join.targetKey) :
    ∃ a, resolve schemas source declared.1 declared.2 = .ok a := by
  obtain ⟨t, htarget, hn⟩ := List.mem_map.1 ht
  unfold resolve
  cases hf : schemas.find? (·.fullName = declared.2.target) with
  | none => exact absurd (decide_eq_true hn) (List.find?_eq_none.1 hf t htarget)
  | some target =>
    have hm := List.mem_of_find?_eq_some hf
    have hn : target.fullName = declared.2.target := by simpa using List.find?_some hf
    dsimp only
    split
    · rename_i join hj
      rw [if_neg (hk target hm hn join hj)]
      exact ⟨_, rfl⟩
    · exact ⟨_, rfl⟩

end

/-! ## Associations by their schemas -/

/-- Elements that have the key of their list are found again by it. -/
theorem map_filter_flatten {α β κ : Type} [DecidableEq κ] {key : β → κ} {f : α → κ} {xs : List α}
    {lists : List (List β)} (h : List.Forall₂ (fun x list => ∀ b ∈ list, key b = f x) xs lists)
    (hn : (xs.map f).Nodup) : xs.map (fun x => lists.flatten.filter (key · = f x)) = lists := by
  induction h with
  | nil => rfl
  | @cons x list xs lists hx hrest ih =>
    obtain ⟨hnew, hn⟩ := List.nodup_cons.1 hn
    have hlater : ∀ b ∈ lists.flatten, key b ∈ xs.map f := by
      intro b hb
      obtain ⟨l, hl, hb⟩ := List.mem_flatten.1 hb
      obtain ⟨y, hy, hkey⟩ := exists_of_forall₂ hrest hl
      exact hkey b hb ▸ List.mem_map_of_mem hy
    have hhere : (list ++ lists.flatten).filter (key · = f x) = list := by
      rw [List.filter_append, List.filter_eq_self.2 (by simpa using hx),
        List.filter_eq_nil_iff.2, List.append_nil]
      intro b hb he
      exact hnew (of_decide_eq_true he ▸ hlater b hb)
    have hthere : ∀ y ∈ xs, (list ++ lists.flatten).filter (key · = f y) =
        lists.flatten.filter (key · = f y) := by
      intro y hy
      rw [List.filter_append, List.filter_eq_nil_iff.2, List.nil_append]
      intro b hb he
      refine hnew (hx b hb ▸ ?_)
      rw [of_decide_eq_true he]
      exact List.mem_map_of_mem hy
    rw [List.flatten_cons, List.map_cons, hhere, List.map_congr_left hthere, ih hn]

/-! ## What assembly builds -/

section

variable {schemas : List Schema} {r : Registry}

/-- Lists that are made of the elements one by one are put together. -/
theorem exists_flatMapM_eq_ok {ε α β : Type} {f : α → Except ε (List β)} {xs : List α}
    (h : ∀ x ∈ xs, ∃ ys, f x = .ok ys) : ∃ ys, xs.flatMapM f = .ok ys := by
  induction xs with
  | nil => exact ⟨[], rfl⟩
  | cons x xs ih =>
    obtain ⟨ys, hys⟩ := h x (by simp)
    obtain ⟨rest, hrest⟩ := ih fun x' hx' => h x' (by simp [hx'])
    refine ⟨ys ++ rest, ?_⟩
    rw [List.flatMapM_cons, hys, hrest]
    rfl

/-- Schemas that fit together are assembled. -/
theorem exists_assemble (h : Fit schemas) : ∃ r, assemble schemas = .ok r := by
  have hnames : schemas.forM checkNames = .ok () := forM_eq_ok.2 fun s hs =>
    checkNames_eq_ok.2 (distinctNames_iff.2 ⟨h.attributes s hs, h.relationships s hs⟩)
  unfold assemble
  rw [firstRepeated_eq_none.2 ⟨h.fullNames, fun _ _ => List.not_mem_nil⟩]
  refine exists_bind_eq_ok ⟨(), hnames⟩ fun _ =>
    exists_bind_eq_ok (exists_flatMapM_eq_ok fun s hs => ?_) fun associations => ⟨_, rfl⟩
  exact exists_mapM_eq_ok fun declared hd =>
    exists_resolve (h.targets s hs declared hd) (h.joinKeys s hs declared hd)

/-- The associations of a schema are what its relationships stand for, in their order. -/
theorem declared_of_assemble (h : assemble schemas = .ok r) {s : Schema} (hs : s ∈ schemas) :
    List.Forall₂ (fun declared a => a.StandsFor schemas s declared) s.relationships
      (r.associationsOf s) := by
  obtain ⟨hfull, -, associations, hassoc, rfl⟩ := assemble_eq_ok h
  obtain ⟨lists, hlists, rfl⟩ := flatMapM_eq_ok hassoc
  replace hlists : List.Forall₂ (fun s list => List.Forall₂ (fun declared a =>
      a.StandsFor schemas s declared) s.relationships list) schemas lists := by
    refine hlists.imp fun s list hlist => (mapM_eq_ok.1 hlist).imp fun declared a ha => ?_
    exact standsFor_of_resolve ha
  have hsources : List.Forall₂ (fun (s : Schema) (list : List Association) =>
      ∀ a ∈ list, a.source.fullName = s.fullName) schemas lists := by
    refine hlists.imp fun s list hlist a ha => ?_
    obtain ⟨declared, -, hstands⟩ := exists_of_forall₂ hlist ha
    rw [hstands.source]
  rw [← map_filter_flatten hsources hfull, List.forall₂_map_right_iff, List.forall₂_same] at hlists
  exact hlists s hs

/-- Assembled schemas fit together. -/
theorem fit_of_assemble (h : assemble schemas = .ok r) : Fit schemas := by
  have hnames {s : Schema} (hs : s ∈ schemas) := distinctNames_iff.1 ((assemble_eq_ok h).2.1 s hs)
  have hstands {s : Schema} {declared : String × Relationship} (hs : s ∈ schemas)
      (hd : declared ∈ s.relationships) : ∃ a : Association, a.StandsFor schemas s declared := by
    obtain ⟨a, -, ha⟩ := exists_of_forall₂ (declared_of_assemble h hs).flip hd
    exact ⟨a, ha⟩
  refine ⟨(assemble_eq_ok h).1, fun s hs => (hnames hs).1, fun s hs => (hnames hs).2, ?_, ?_⟩
  · intro s hs declared hd
    obtain ⟨a, ha⟩ := hstands hs hd
    exact ha.targetName ▸ List.mem_map_of_mem ha.target
  · intro s hs declared hd target ht hn join hj
    obtain ⟨a, ha⟩ := hstands hs hd
    obtain rfl : a.target = target :=
      List.inj_on_of_nodup_map (assemble_eq_ok h).1 ha.target ht (ha.targetName.trans hn.symm)
    exact ha.joinKeys join (ha.kind.trans hj)

/-! ## Lookups of assembled registries -/

/-- A lookup finds the declared relationships. -/
theorem association?_isSome_iff (h : assemble schemas = .ok r) {s : Schema} (hs : s ∈ schemas)
    {name : String} : (∃ a, r.association? s name = some a) ↔ name ∈ s.relationshipNames := by
  have hdeclared := declared_of_assemble h hs
  constructor
  · rintro ⟨a, ha⟩
    obtain ⟨declared, hd, hstands⟩ :=
      exists_of_forall₂ hdeclared (List.mem_of_find?_eq_some ha)
    have hn : a.name = name := by simpa using List.find?_some ha
    exact List.mem_map.2 ⟨declared, hd, hstands.name.symm.trans hn⟩
  · intro hn
    obtain ⟨declared, hd, rfl⟩ := List.mem_map.1 hn
    obtain ⟨a, ha, hstands⟩ := exists_of_forall₂ hdeclared.flip hd
    exact Option.isSome_iff_exists.1
      (List.find?_isSome.2 ⟨a, ha, decide_eq_true hstands.name⟩)

/-- What is found stands for a declared relationship of its name. -/
theorem exists_declared (h : assemble schemas = .ok r) {s : Schema} (hs : s ∈ schemas)
    {name : String} {a : Association} (ha : r.association? s name = some a) :
    ∃ relationship, (name, relationship) ∈ s.relationships ∧
      a.StandsFor schemas s (name, relationship) := by
  obtain ⟨⟨name', relationship⟩, hd, hstands⟩ :=
    exists_of_forall₂ (declared_of_assemble h hs) (List.mem_of_find?_eq_some ha)
  have hn : a.name = name := by simpa using List.find?_some ha
  obtain rfl : name' = name := hstands.name.symm.trans hn
  exact ⟨relationship, hd, hstands⟩

/-- A declared relationship is found as what it stands for. -/
theorem exists_standsFor (h : assemble schemas = .ok r) {s : Schema} (hs : s ∈ schemas)
    {name : String} {relationship : Relationship} (hd : (name, relationship) ∈ s.relationships) :
    ∃ a, r.association? s name = some a ∧ a.StandsFor schemas s (name, relationship) := by
  obtain ⟨a, ha⟩ := (association?_isSome_iff h hs).2 (List.mem_map_of_mem hd)
  obtain ⟨other, hm, hstands⟩ := exists_declared h hs ha
  have hsame : (name, other) = (name, relationship) :=
    List.inj_on_of_nodup_map ((fit_of_assemble h).relationships s hs).1 hm hd rfl
  exact ⟨a, ha, hsame ▸ hstands⟩

/-- The key of an association has one column: a field or one derived key. -/
theorem key_of_assemble (h : assemble schemas = .ok r) {a : Association}
    (ha : a ∈ r.associations) {owner other : Schema} {field : String}
    (hk : a.KeyOn owner field other) :
    if owner.hasField field then ∀ k ∈ r.foreignKeysOf owner, k.field ≠ field
    else ∃ k, (r.foreignKeysOf owner).filter (·.field = field) = [k] := by
  have hcoherent := coherent_of_assemble h
  have howner := hcoherent.mem_of_keyOn ha hk
  split
  · rename_i hf
    rintro k hm rfl
    obtain ⟨hm, hn⟩ := List.mem_filter.1 hm
    rw [foreignKeys_of_assemble h] at hm
    obtain hm | ⟨b, hb, o, hon, ho, hnot⟩ := exists_keyOn_of_mem_foldl hm
    · cases hm
    · obtain rfl := hcoherent.eq_of_fullName (hcoherent.mem_of_keyOn hb hon) howner
        (ho.trans (of_decide_eq_true hn))
      exact Bool.false_ne_true (hnot.symm.trans hf)
  · rename_i hf
    obtain ⟨-, first, k, -, -, -, hone, -⟩ :=
      first_association_decides h ha hk (Bool.eq_false_iff.2 hf)
    exact ⟨k, hone⟩

theorem indexes_of_assemble (h : assemble schemas = .ok r) : r.Indexes schemas := by
  have hcoherent := coherent_of_assemble h
  have hschemas : r.schemas = schemas := by
    obtain ⟨-, -, associations, -, rfl⟩ := assemble_eq_ok h
    rfl
  refine ⟨hschemas, fun schema name => ?_, fun s hs => declared_of_assemble h hs,
    fun a ha => hcoherent.schema?_fullName (hcoherent.target a ha),
    fun a ha owner field other => key_of_assemble h ha⟩
  -- a lookup for any schema is one for the schema that is registered under its name
  have hsame {s : Schema} (hn : s.fullName = schema.fullName) :
      r.association? schema name = r.association? s name := by
    rw [association?, associationsOf, ← hn]
    rfl
  constructor
  · rintro ⟨a, ha⟩
    obtain ⟨hm, hn, -⟩ := mem_of_association? ha
    have hs : a.source ∈ schemas := hschemas ▸ hcoherent.source a hm
    exact ⟨a.source, hs, hn, (association?_isSome_iff h hs).1 ⟨a, hsame hn ▸ ha⟩⟩
  · rintro ⟨s, hs, hn, hdeclared⟩
    rw [hsame hn]
    exact (association?_isSome_iff h hs).2 hdeclared

/-- **Schemas that fit together are assembled, and the registry answers for them.** -/
theorem assembles_iff_fit : ((∃ r, assemble schemas = .ok r) ↔ Fit schemas) ∧
    ∀ r, assemble schemas = .ok r → r.Indexes schemas :=
  ⟨⟨fun ⟨_, h⟩ => fit_of_assemble h, exists_assemble⟩, fun _ => indexes_of_assemble⟩

end

/-- Two kinds of users and what they have to do fit together. -/
theorem indexes_duties : assemble [todo, adminUser, user] = .ok duties ∧
    Fit [todo, adminUser, user] ∧ duties.Indexes [todo, adminUser, user] :=
  ⟨assemble_duties, assembles_iff_fit.1.1 ⟨duties, assemble_duties⟩,
    assembles_iff_fit.2 duties assemble_duties⟩

end Registry

end ResourceApi
