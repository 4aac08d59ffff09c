import Mathlib.Data.List.Nodup
import ResourceApi.Proofs.Result
import ResourceApi.Sql.Value

/-!
# Assembled registries

What the checks of `Registry.assemble` secure. A registry is *coherent* when no two of its schemas
have the same full name, no schema uses a name twice, and every association leads from one of its
schemas to one of its schemas.

**Theorem (`Registry.coherent_of_assemble`).** Every assembled registry is coherent.
-/

namespace ResourceApi

/-- An element is found by a key that no other one has. -/
theorem find?_eq_some_of_nodup {α κ : Type} [DecidableEq κ] {key : α → κ} {xs : List α}
    (hn : (xs.map key).Nodup) {x : α} (hx : x ∈ xs) : xs.find? (key · = key x) = some x := by
  cases hf : xs.find? (key · = key x) with
  | none =>
    have hx := List.find?_eq_none.1 hf x hx
    simp at hx
  | some y =>
    have hkey : key y = key x := by simpa using List.find?_some hf
    rw [List.inj_on_of_nodup_map hn (List.mem_of_find?_eq_some hf) hx hkey]

/-- The fields of a schema are its primary key and its attributes. -/
theorem Schema.hasField_iff {schema : Schema} {field : String} :
    schema.hasField field ↔ field ∈ schema.allFields := by
  simp [hasField, attribute?, allFields, attributeNames]

namespace Registry

/-! ## Repeated names -/

theorem firstRepeated_eq_none {seen names : List String} :
    firstRepeated seen names = none ↔ names.Nodup ∧ ∀ name ∈ names, name ∉ seen := by
  induction names generalizing seen with
  | nil => simp [firstRepeated]
  | cons name rest ih =>
    unfold firstRepeated
    split
    · rename_i h
      simp [h]
    · rename_i h
      rw [ih, List.nodup_cons]
      constructor
      · rintro ⟨hn, hs⟩
        refine ⟨⟨fun hm => (hs name hm) (by simp), hn⟩, ?_⟩
        rintro other (_ | ⟨_, hm⟩)
        · exact h
        · exact fun ho => hs other hm (by simp [ho])
      · rintro ⟨⟨hm, hn⟩, hs⟩
        refine ⟨hn, fun other ho => ?_⟩
        simp only [List.mem_cons, not_or]
        exact ⟨fun he => hm (he ▸ ho), hs other (by simp [ho])⟩

theorem checkRelationshipNames_eq_ok {schema : Schema} {seen names : List String} :
    checkRelationshipNames schema seen names = .ok () ↔
      (∀ name ∈ names, schema.hasField name = false) ∧ names.Nodup ∧
        ∀ name ∈ names, name ∉ seen := by
  induction names generalizing seen with
  | nil => simp [checkRelationshipNames]
  | cons name rest ih =>
    unfold checkRelationshipNames
    split
    · rename_i h
      simp [h]
    · rename_i hf
      split
      · rename_i hs
        simp [hs]
      · rename_i hs
        rw [ih, List.nodup_cons]
        constructor
        · rintro ⟨hfields, hn, hseen⟩
          refine ⟨?_, ⟨fun hm => hseen name hm (by simp), hn⟩, ?_⟩
          · rintro other (_ | ⟨_, hm⟩)
            · simpa using hf
            · exact hfields other hm
          · rintro other (_ | ⟨_, hm⟩)
            · exact hs
            · exact fun ho => hseen other hm (by simp [ho])
        · rintro ⟨hfields, ⟨hm, hn⟩, hseen⟩
          refine ⟨fun other ho => hfields other (by simp [ho]), hn, fun other ho => ?_⟩
          simp only [List.mem_cons, not_or]
          exact ⟨fun he => hm (he ▸ ho), hseen other (by simp [ho])⟩

/-! ## Coherence -/

/-- The names of a schema do not get in each other's way. -/
structure DistinctNames (schema : Schema) : Prop where
  fields : schema.allFields.Nodup
  relationships : schema.relationshipNames.Nodup
  /-- No relationship has the name of a field. -/
  disjoint : ∀ name ∈ schema.relationshipNames, schema.hasField name = false

theorem distinctNames_of_checkNames {schema : Schema} (h : checkNames schema = .ok ()) :
    DistinctNames schema := by
  unfold checkNames at h
  split at h
  · cases h
  · rename_i hf
    obtain ⟨hd, hn, -⟩ := checkRelationshipNames_eq_ok.1 h
    exact ⟨(firstRepeated_eq_none.1 hf).1, hn, hd⟩

/-- The schemas and associations of a registry fit together. -/
structure Coherent (r : Registry) : Prop where
  /-- A full name stands for one schema. -/
  fullNames : (r.schemas.map (·.fullName)).Nodup
  names : ∀ schema ∈ r.schemas, DistinctNames schema
  /-- Associations are declared relationships. -/
  declared : ∀ a ∈ r.associations, a.name ∈ a.source.relationshipNames
  source : ∀ a ∈ r.associations, a.source ∈ r.schemas
  target : ∀ a ∈ r.associations, a.target ∈ r.schemas

theorem resolve_eq_ok {schemas : List Schema} {source : Schema} {name : String}
    {relationship : Relationship} {a : Association}
    (h : resolve schemas source name relationship = .ok a) :
    a.name = name ∧ a.source = source ∧ a.target ∈ schemas := by
  unfold resolve at h
  split at h
  · cases h
  · rename_i target ht
    have hm := List.mem_of_find?_eq_some ht
    dsimp only at h
    split at h
    · split at h
      · cases h
      · cases h
        exact ⟨rfl, rfl, hm⟩
    · cases h
      exact ⟨rfl, rfl, hm⟩

theorem flatMapM_eq_ok {ε α β : Type} {f : α → Except ε (List β)} {xs : List α} {ys : List β}
    (h : xs.flatMapM f = .ok ys) :
    ∃ zss, List.Forall₂ (fun x zs => f x = .ok zs) xs zss ∧ ys = zss.flatten := by
  induction xs generalizing ys with
  | nil =>
    rw [List.flatMapM_nil, pure_eq_ok] at h
    exact ⟨[], .nil, h.symm⟩
  | cons x xs ih =>
    rw [List.flatMapM_cons] at h
    obtain ⟨zs, hx, h⟩ := bind_eq_ok.1 h
    obtain ⟨rest, hrest, h⟩ := bind_eq_ok.1 h
    obtain rfl := pure_eq_ok.1 h
    obtain ⟨zss, hall, rfl⟩ := ih hrest
    exact ⟨zs :: zss, .cons hx hall, rfl⟩

/-- What assembly has checked and built. -/
theorem assemble_eq_ok {schemas : List Schema} {r : Registry} (h : assemble schemas = .ok r) :
    (schemas.map (·.fullName)).Nodup ∧ (∀ s ∈ schemas, DistinctNames s) ∧
      ∃ associations, schemas.flatMapM (fun source => source.relationships.mapM
          fun (name, relationship) => resolve schemas source name relationship) = .ok associations ∧
        r = ⟨schemas, associations, associations.foldl addForeignKey []⟩ := by
  unfold assemble at h
  cases hd : firstRepeated [] (schemas.map (·.fullName)) with
  | some name =>
    rw [hd] at h
    obtain ⟨_, h, -⟩ := bind_eq_ok.1 h
    cases h
  | none =>
    rw [hd] at h
    obtain ⟨⟨⟩, hnames, h⟩ := bind_eq_ok.1 h
    obtain ⟨associations, hassoc, h⟩ := bind_eq_ok.1 h
    exact ⟨(firstRepeated_eq_none.1 hd).1,
      fun s hs => distinctNames_of_checkNames (forM_eq_ok.1 hnames s hs),
      associations, hassoc, (pure_eq_ok.1 h).symm⟩

/-- **Assembled registries are coherent.** -/
theorem coherent_of_assemble {schemas : List Schema} {r : Registry} (h : assemble schemas = .ok r) :
    r.Coherent := by
  obtain ⟨hfull, hnames, associations, hassoc, rfl⟩ := assemble_eq_ok h
  obtain ⟨lists, hlists, rfl⟩ := flatMapM_eq_ok hassoc
  have hresolved : ∀ a ∈ lists.flatten, a.name ∈ a.source.relationshipNames ∧
      a.source ∈ schemas ∧ a.target ∈ schemas := by
    intro a ha
    obtain ⟨list, hlist, ha⟩ := List.mem_flatten.1 ha
    obtain ⟨source, hs, hlist⟩ := exists_of_forall₂ hlists hlist
    obtain ⟨⟨name, relationship⟩, hm, hr⟩ := exists_of_mapM_eq_ok hlist ha
    obtain ⟨rfl, rfl, ht⟩ := resolve_eq_ok hr
    exact ⟨List.mem_map_of_mem hm, hs, ht⟩
  exact {
    fullNames := hfull
    names := hnames
    declared := fun a ha => (hresolved a ha).1
    source := fun a ha => (hresolved a ha).2.1
    target := fun a ha => (hresolved a ha).2.2 }

namespace Coherent

variable {r : Registry} {schema : Schema} {name : String} {a : Association}

/-- Schemas of the registry are the same if their full names are. -/
theorem eq_of_fullName (h : r.Coherent) {s t : Schema} (hs : s ∈ r.schemas) (ht : t ∈ r.schemas)
    (he : s.fullName = t.fullName) : s = t :=
  List.inj_on_of_nodup_map h.fullNames hs ht he

theorem schema?_fullName (h : r.Coherent) (hs : schema ∈ r.schemas) :
    r.schema? schema.fullName = some schema :=
  find?_eq_some_of_nodup h.fullNames hs

end Coherent

theorem mem_of_schema? {r : Registry} {name : String} {s : Schema} (h : r.schema? name = some s) :
    s ∈ r.schemas ∧ s.fullName = name :=
  ⟨List.mem_of_find?_eq_some h, by simpa using List.find?_some h⟩

theorem mem_of_association? {r : Registry} {schema : Schema} {name : String} {a : Association}
    (h : r.association? schema name = some a) :
    a ∈ r.associations ∧ a.source.fullName = schema.fullName ∧ a.name = name := by
  have hm := List.mem_of_find?_eq_some h
  have hn : a.name = name := by simpa using List.find?_some h
  have hf : a ∈ r.associations ∧ a.source.fullName = schema.fullName := by
    simpa [associationsOf] using hm
  exact ⟨hf.1, hf.2, hn⟩

namespace Coherent

variable {r : Registry} {schema : Schema} {name : String} {a : Association}

/-- An association found for a schema starts there and leads to a schema of the registry. -/
theorem of_association? (h : r.Coherent) (hs : schema ∈ r.schemas)
    (ha : r.association? schema name = some a) : a.source = schema ∧ a.target ∈ r.schemas := by
  obtain ⟨hm, hn, -⟩ := mem_of_association? ha
  exact ⟨h.eq_of_fullName (h.source a hm) hs hn, h.target a hm⟩

end Coherent

/-! ## Chains of relationships -/

/-- A chain of relationships leads from one schema to another. -/
inductive Leads (r : Registry) : Schema → List String → Schema → Prop
  | here (schema : Schema) : Leads r schema [] schema
  | along {schema owner : Schema} {name : String} {rest : List String} {a : Association} :
      r.association? schema name = some a → Leads r a.target rest owner →
      Leads r schema (name :: rest) owner

/-! ## Columns -/

/-- Every field of a schema has a column under its name. -/
theorem column?_of_hasField (r : Registry) {schema : Schema} {field : String}
    (h : schema.hasField field) : ∃ c, r.column? schema field = some c ∧ c.field = field := by
  have hex : ∃ c ∈ r.columns schema, c.field = field := by
    rcases Bool.or_eq_true_iff.1 h with hid | hattr
    · exact ⟨_, List.mem_cons_self, (of_decide_eq_true hid).symm⟩
    · obtain ⟨attr, ha⟩ := Option.isSome_iff_exists.1 hattr
      have hn : attr.name = field := by simpa using List.find?_some ha
      exact ⟨_, List.mem_cons_of_mem _ (List.mem_append_left _
        (List.mem_map_of_mem (List.mem_of_find?_eq_some ha))), hn⟩
  obtain ⟨c, hm, hc⟩ := hex
  cases hf : r.column? schema field with
  | none =>
    unfold column? at hf
    rw [List.find?_eq_none] at hf
    exact absurd hc (by simpa using hf c hm)
  | some c => exact ⟨c, rfl, by simpa using List.find?_some hf⟩

end Registry

/-! ## A registry of trees -/

/-- Named nodes, each of which may have one other node above it. -/
def treeNode : Schema where
  name := "Node"
  idType := .integer
  attributes := [{ name := "name", type := .string }]
  relationships := [("up", .belongsTo "Node" none)]

/-- The way up. -/
def nodeUp : Association := ⟨"up", treeNode, treeNode, .belongsTo "upId"⟩

/-- The registry of nodes. -/
def tree : Registry := ⟨[treeNode], [nodeUp], [⟨"Node", "upId", treeNode⟩]⟩

theorem assemble_node : Registry.assemble [treeNode] = .ok tree := by decide +kernel

end ResourceApi
