import ResourceApi.Proofs.Query.Faults

/-!
# Alternatives

Where a name in the parameters is unknown, the fault lists the names that would have been accepted:
the types of a fields parameter, the fields of a type, of a filter or of a sort key, and the
relationships of a path. Each such fault is at a place (`Params.Place`), and `Plan.misnamings` has
all of them.

**Theorem (`Plan.alternatives_taken`).** Put at the place of an unknown name, each name that the
fault lists is known there. There are two exceptions. Types are listed by their short names and
looked up by their full ones, so a type must be listed under its full name. A path is cut at its
dots, so there must be none in the name (`Params.Place.Takes`).

The listed names are those that are declared, the known ones those that are found in the tables of
the registry. An assembled registry finds exactly what is declared (`Registry.Indexes`).
-/

namespace ResourceApi

/-! ## Places -/

namespace Params

/-- Where a name stands in the parameters. Paths are counted and so are the names on them. -/
inductive Place where
  /-- The type of a fields parameter. -/
  | type (i : Nat)
  /-- One of the names that a fields parameter selects. -/
  | selected (i j : Nat)
  | filter (i k : Nat)
  | included (i k : Nat)
  | sort (i k : Nat)
  deriving DecidableEq, Repr

/-- A path with another name at an index. -/
def renamePath (k : Nat) (name path : String) : String :=
  ".".intercalate ((Text.pieces '.' path).set k name)

/-- The name at a place. -/
def name? (params : Params) : Place → Option String
  | .type i => params.fields[i]?.map (·.typeName)
  | .selected i j => params.fields[i]?.bind (·.names[j]?)
  | .filter i k => params.filters[i]?.bind fun param => (Text.pieces '.' param.field)[k]?
  | .included i k => params.includes[i]?.bind fun path => (Text.pieces '.' path)[k]?
  | .sort i k => params.sort[i]?.bind fun param => (Text.pieces '.' param.field)[k]?

/-- The parameters with another name at a place. -/
def rename (params : Params) (name : String) : Place → Params
  | .type i => { params with
      fields := params.fields.modify i fun param => { param with typeName := name } }
  | .selected i j => { params with
      fields := params.fields.modify i fun param => { param with names := param.names.set j name } }
  | .filter i k => { params with
      filters := params.filters.modify i fun param =>
        { param with field := renamePath k name param.field } }
  | .included i k => { params with includes := params.includes.modify i (renamePath k name) }
  | .sort i k => { params with
      sort := params.sort.modify i fun param =>
        { param with field := renamePath k name param.field } }

/-- A place can take a name: a type is named by its full name, and a name on a path has no dot. -/
def Place.Takes (schemas : List Schema) (name : String) : Place → Prop
  | .type _ => name ∈ schemas.map (·.fullName)
  | .selected .. => True
  | .filter .. | .included .. | .sort .. => '.' ∉ name.toList

end Params

/-! ## Faults about names -/

namespace PlanError

/-- The names that would have been accepted in place of an unknown one. -/
def alternatives? : PlanError → Option (List String)
  | unknownType _ known | unknownSelection _ known | unknownRelationship _ _ _ known
  | unknownFilter _ known | unknownInclude _ _ _ known | unknownSort known => some known
  | _ => none

/-- The error is about a name that is unknown. -/
def IsAbout (name : String) : PlanError → Prop
  | unknownType typeName _ => name = typeName
  | unknownRelationship _ segment _ _ | unknownInclude _ segment _ _ => name = segment
  | unknownSelection _ known | unknownFilter _ known | unknownSort known => name ∉ known
  | _ => False

/-- The error lists its alternatives, if there are any. -/
theorem exists_detail_eq {e : PlanError} {known : List String} (h : e.alternatives? = some known)
    (hne : known ≠ []) : ∃ before after, e.detail = before ++ quotedList known ++ after := by
  have hempty : ¬ known.isEmpty = true := by simpa using hne
  cases e with
  | unknownType typeName known =>
    cases h
    exact ⟨"URL must have 'fields[x]' where 'x' is one of ", ".", rfl⟩
  | unknownSelection typeName known =>
    cases h
    exact ⟨
      s!"URL must have 'fields[{typeName}]' as comma separated values containing one or more of ",
      ".", (String.append_assoc ..).symm⟩
  | unknownRelationship parameter segment schema known =>
    cases h
    exact ⟨s!"'{segment}' is not a relationship of '{schema}'; expected one of ", ".",
      if_neg hempty⟩
  | unknownFilter field known =>
    cases h
    exact ⟨"URL must have 'filter[x]' where 'x' is one of ", ".", rfl⟩
  | unknownInclude path segment schema known =>
    cases h
    refine ⟨"URL must have 'include' as one or more of ",
      s!" for '{schema}'; '{segment}' " ++ s!"in '{path}' is unknown.",
      Eq.trans (if_neg hempty) ?_⟩
    simp only [toString, String.append_assoc]
  | unknownSort known =>
    cases h
    exact ⟨"URL must have 'sort' as comma separated values containing one or more of ", ".", rfl⟩
  | _ => cases h

end PlanError

/-! ## Paths that lead astray -/

namespace Registry

/-- How many names of a path are followed, up to the first that is no relationship. -/
def followed (r : Registry) : Schema → List String → Nat
  | _, [] => 0
  | schema, name :: rest =>
    match r.association? schema name with
    | none => 0
    | some a => followed r a.target rest + 1

/-- The names of a path before the `k`-th lead to a schema that has no relationship of that name. -/
structure Strays (r : Registry) (schema : Schema) (names : List String) (k : Nat) (owner : Schema)
    (name : String) : Prop where
  name_at : names[k]? = some name
  leads : r.Leads schema (names.take k) owner
  unknown : r.association? owner name = none

variable {r : Registry} {schema owner : Schema} {names : List String}

theorem Leads.unique {other : Schema} (h : r.Leads schema names owner)
    (h' : r.Leads schema names other) : owner = other := by
  induction h with
  | here =>
    cases h'
    rfl
  | along ha _ ih =>
    obtain _ | ⟨hb, hrest⟩ := h'
    obtain rfl := Option.some.inj (ha.symm.trans hb)
    exact ih hrest

theorem Leads.followed (h : r.Leads schema names owner) :
    r.followed schema names = names.length := by
  induction h with
  | here => rfl
  | along ha _ ih =>
    unfold Registry.followed
    rw [ha]
    exact congrArg (· + 1) ih

theorem Strays.along {a : Association} {first name : String} {k : Nat}
    (ha : r.association? schema first = some a) (h : r.Strays a.target names k owner name) :
    r.Strays schema (first :: names) (k + 1) owner name where
  name_at := h.name_at
  leads := .along ha h.leads
  unknown := h.unknown

/-- The name at which a path goes astray can be replaced by a relationship. -/
theorem Strays.not_set {k : Nat} {name new : String} (h : r.Strays schema names k owner name)
    (hnew : ∃ a, r.association? owner new = some a) (other : Schema) (name' : String) :
    ¬ r.Strays schema (names.set k new) k other name' := by
  intro h'
  have hlt : k < names.length := (List.getElem?_eq_some_iff.1 h.name_at).1
  obtain rfl : new = name' := by
    simpa [List.getElem?_set_self hlt] using h'.name_at
  have hleads := h'.leads
  rw [List.take_set_of_le (Nat.le_refl k)] at hleads
  obtain rfl := h.leads.unique hleads
  obtain ⟨a, ha⟩ := hnew
  cases ha.symm.trans h'.unknown

end Registry

/-- A name on a path is unknown: one that is no relationship, or the last one, which is no field. -/
inductive Path.Misnamed (r : Registry) (schema : Schema) (path : Path) :
    Nat → String → List String → Prop
  | relationship {k : Nat} {owner : Schema} {name : String} :
    r.Strays schema path.relationships k owner name →
      Misnamed r schema path k name owner.relationshipNames
  | field {k : Nat} {owner : Schema} : k = path.relationships.length →
    r.Leads schema path.relationships owner → owner.hasField path.field = false →
      Misnamed r schema path k path.field owner.allFields

namespace Path

/-- The parts of a text are its pieces. -/
theorem parts_ofText (s : String) : (ofText s).parts = Text.pieces '.' s := by
  have hne : Text.pieces '.' s ≠ [] := by
    simpa [Text.pieces] using Text.splitOn_ne_nil '.' s.toList
  rw [ofText, ofParts, parts, List.getLastD_eq_getLast?, List.getLast?_eq_some_getLast hne]
  exact List.dropLast_append_getLast hne

theorem ofParts_parts (p : Path) : ofParts p.parts = p := by
  simp [ofParts, parts]

/-- Renaming a part of a path whose parts have no dots. -/
theorem pieces_renamePath {k : Nat} {name : String} (hname : '.' ∉ name.toList) (s : String) :
    Text.pieces '.' (Params.renamePath k name s) = (Text.pieces '.' s).set k name := by
  have hdots : ∀ piece ∈ (Text.pieces '.' s).set k name, '.' ∉ piece.toList := by
    intro piece hm
    rcases List.mem_or_eq_of_mem_set hm with hm | rfl
    · obtain ⟨cs, hcs, rfl⟩ := List.mem_map.1 hm
      simpa using Text.notMem_of_mem_splitOn hcs
    · exact hname
  have hne : (Text.pieces '.' s).set k name ≠ [] := by
    simpa [Text.pieces] using Text.splitOn_ne_nil '.' s.toList
  unfold Params.renamePath
  generalize (Text.pieces '.' s).set k name = pieces at hdots hne ⊢
  obtain ⟨piece, rest, rfl⟩ := List.exists_cons_of_ne_nil hne
  have hsplit : Text.splitOn '.'
      (['.'].intercalate (piece.toList :: rest.map String.toList)) =
        piece.toList :: rest.map String.toList :=
    Text.splitOn_intercalate (by simpa using hdots)
  rw [Text.pieces, String.toList_intercalate, List.map_cons]
  show (Text.splitOn '.' (['.'].intercalate (piece.toList :: rest.map String.toList))).map _ = _
  rw [hsplit]
  simp [Function.comp_def]

theorem ofText_renamePath {k : Nat} {name : String} (hname : '.' ∉ name.toList) (s : String) :
    ofText (Params.renamePath k name s) = ofParts ((ofText s).parts.set k name) := by
  rw [ofText, pieces_renamePath hname, parts_ofText]

theorem ofParts_set_of_lt {p : Path} {k : Nat} (h : k < p.relationships.length) (name : String) :
    ofParts (p.parts.set k name) = ⟨p.relationships.set k name, p.field⟩ := by
  rw [parts, List.set_append_left _ _ h]
  exact ofParts_parts ⟨_, _⟩

theorem ofParts_set_length (p : Path) (name : String) :
    ofParts (p.parts.set p.relationships.length name) = ⟨p.relationships, name⟩ := by
  rw [parts, List.set_append_right _ _ (Nat.le_refl _), Nat.sub_self, List.set_cons_zero]
  exact ofParts_parts ⟨p.relationships, name⟩

theorem getElem?_pieces_renamePath {k : Nat} {name : String} {s : String}
    (hk : k < (Text.pieces '.' s).length) (hname : '.' ∉ name.toList) :
    (Text.pieces '.' (Params.renamePath k name s))[k]? = some name := by
  rw [pieces_renamePath hname, List.getElem?_set_self hk]

variable {schemas : List Schema} {r : Registry} {schema : Schema} {path : Path} {k : Nat}
  {name new : String} {known : List String}

theorem Misnamed.part_at (h : path.Misnamed r schema k name known) :
    path.parts[k]? = some name := by
  cases h with
  | relationship h =>
    have hlt : k < path.relationships.length := (List.getElem?_eq_some_iff.1 h.name_at).1
    rw [parts, List.getElem?_append_left hlt, h.name_at]
  | field hk =>
    rw [parts, hk, List.getElem?_concat_length]

/-- Every name that is listed is known in place of an unknown one. -/
theorem Misnamed.not_set (hi : r.Indexes schemas) (hr : r.Coherent) (hs : schema ∈ schemas)
    (h : path.Misnamed r schema k name known) (hnew : new ∈ known) (name' : String)
    (known' : List String) :
    ¬ (ofParts (path.parts.set k new)).Misnamed r schema k name' known' := by
  intro h'
  cases h with
  | @relationship owner _ h =>
    have hlt : k < path.relationships.length := (List.getElem?_eq_some_iff.1 h.name_at).1
    have ho : owner ∈ schemas := ((hi.leads_iff_walks hr hs).1 h.leads).mem hs
    rw [ofParts_set_of_lt hlt] at h'
    cases h' with
    | relationship h' =>
      exact h.not_set ((hi.association owner new).2 ⟨owner, ho, rfl, hnew⟩) _ _ h'
    | field hk =>
      rw [List.length_set] at hk
      omega
  | @field owner hk hleads =>
    rw [hk, ofParts_set_length] at h'
    cases h' with
    | relationship h' =>
      have hlt := (List.getElem?_eq_some_iff.1 h'.name_at).1
      exact absurd hlt (Nat.lt_irrefl _)
    | field _ hleads' hunknown =>
      obtain rfl := hleads.unique hleads'
      rw [Schema.hasField_iff.2 hnew] at hunknown
      cases hunknown

end Path

/-! ## What checks find unknown -/

namespace Plan

variable {r : Registry} {schema owner : Schema} {names known : List String} {e : PlanError}

theorem strays_of_resolve {parameter : String} (h : resolve r parameter schema names = .error e) :
    ∃ owner name, r.Strays schema names (r.followed schema names) owner name ∧
      e = .unknownRelationship parameter name owner.name owner.relationshipNames := by
  induction names generalizing schema with
  | nil => cases h
  | cons first rest ih =>
    unfold resolve at h
    unfold Registry.followed
    cases ha : r.association? schema first with
    | none =>
      rw [ha] at h
      obtain rfl := Except.error.inj h
      exact ⟨schema, first, ⟨rfl, .here schema, ha⟩, rfl⟩
    | some a =>
      rw [ha] at h
      obtain ⟨owner, name, hstrays, he⟩ := ih h
      exact ⟨owner, name, hstrays.along ha, he⟩

theorem strays_of_grow {path : String} {nodes : List IncludeNode}
    (h : (grow r path schema names nodes).2 = some e) :
    ∃ owner name, r.Strays schema names (r.followed schema names) owner name ∧
      e = .unknownInclude path name owner.name owner.relationshipNames := by
  induction names generalizing schema nodes with
  | nil => cases h
  | cons first rest ih =>
    unfold grow at h
    unfold Registry.followed
    cases ha : r.association? schema first with
    | none =>
      rw [ha] at h
      obtain rfl := Option.some.inj h
      exact ⟨schema, first, ⟨rfl, .here schema, ha⟩, rfl⟩
    | some a =>
      rw [ha] at h
      obtain ⟨owner, name, hstrays, he⟩ := ih h
      exact ⟨owner, name, hstrays.along ha, he⟩

/-- What is wrong with a value is not that a name is unknown. -/
theorem alternatives?_compileValue {field : String} {param : FilterParam}
    (h : compileValue owner field param = .error e) : e.alternatives? = none := by
  have hcoerce {raw : String} (h : (if param.operator.isPattern then .ok (.str raw)
      else (owner.coerceText field raw).mapError (PlanError.wrongValue param.field ·)) =
        Except.error e) : e.alternatives? = none := by
    split at h
    · cases h
    · obtain ⟨cause, -, rfl⟩ := mapError_eq_error.1 h
      rfl
  unfold compileValue at h
  dsimp only at h
  split at h
  · rcases bind_eq_error.1 h with h | ⟨_, -, h⟩
    · obtain ⟨raw, -, h⟩ := exists_of_mapM_eq_error h
      exact hcoerce h
    · exact absurd h pure_ne_error
  · split at h
    · exact hcoerce h
    · obtain rfl := Except.error.inj h
      rfl

/-- A check that fails, itself or behind its guard. -/
theorem guard_eq_error {ε α : Type} {c : Prop} [Decidable c] {e e' : ε} {rest : Unit → Except ε α}
    (h : (if c then (throw e : Except ε Unit) >>= rest else rest ()) = .error e') :
    c ∧ e' = e ∨ rest () = .error e' := by
  split at h
  · rename_i hc
    exact .inl ⟨hc, (Except.error.inj h).symm⟩
  · exact .inr h

/-- Where a path leads, its last name is no field. -/
theorem misnamed_field {path : Path} (hleads : r.Leads schema path.relationships owner)
    (hf : owner.hasField path.field = false) :
    path.Misnamed r schema (r.followed schema path.relationships) path.field owner.allFields ∧
      path.field ∉ owner.allFields := by
  refine ⟨.field hleads.followed hleads hf, fun hm => ?_⟩
  rw [Schema.hasField_iff.2 hm] at hf
  cases hf

theorem misnamed_of_compileCondition {param : FilterParam}
    (h : compileCondition r schema param = .error e) (hk : e.alternatives? = some known) :
    ∃ name, (Path.ofText param.field).Misnamed r schema
      (r.followed schema (Path.ofText param.field).relationships) name known ∧
        e.IsAbout name := by
  unfold compileCondition at h
  rcases bind_eq_error.1 h with h | ⟨owner, howner, h⟩
  · obtain ⟨owner, name, hstrays, rfl⟩ := strays_of_resolve h
    cases hk
    exact ⟨name, .relationship hstrays, rfl⟩
  · have hleads := leads_of_resolve howner
    rcases guard_eq_error h with ⟨hunknown, rfl⟩ | h
    · cases hk
      exact ⟨_, misnamed_field hleads (by simpa using hunknown)⟩
    · rcases bind_eq_error.1 h with h | ⟨_, -, h⟩
      · cases (alternatives?_compileValue h).symm.trans hk
      · exact absurd h pure_ne_error

theorem misnamed_of_compileSortKey {nodes : List IncludeNode} {param : SortParam}
    (h : compileSortKey r schema nodes param = .error e) (hk : e.alternatives? = some known) :
    ∃ name, (Path.ofText param.field).Misnamed r schema
      (r.followed schema (Path.ofText param.field).relationships) name known ∧
        e.IsAbout name := by
  unfold compileSortKey at h
  rcases bind_eq_error.1 h with h | ⟨owner, howner, h⟩
  · obtain ⟨owner, name, hstrays, rfl⟩ := strays_of_resolve h
    cases hk
    exact ⟨name, .relationship hstrays, rfl⟩
  · have hleads := leads_of_resolve howner
    rcases guard_eq_error h with ⟨-, rfl⟩ | h
    · cases hk
    rcases guard_eq_error h with ⟨hunknown, rfl⟩ | h
    · cases hk
      exact ⟨_, misnamed_field hleads (by simpa using hunknown)⟩
    · exact absurd h pure_ne_error

end Plan

/-! ## Faults at their places -/

namespace Plan

/-- Puts together what is made of each element and its index. -/
def indexed {α β : Type} (f : Nat → α → List β) (xs : List α) : List β :=
  xs.zipIdx.flatMap fun (a, i) => f i a

theorem mem_indexed {α β : Type} {f : Nat → α → List β} {xs : List α} {b : β} :
    b ∈ indexed f xs ↔ ∃ i a, xs[i]? = some a ∧ b ∈ f i a := by
  unfold indexed
  simp only [List.mem_flatMap, Prod.exists, List.mem_zipIdx_iff_getElem?]
  exact exists_comm

/-- What is made of the elements may be told without their indexes. -/
theorem map_indexed {α β γ : Type} {f : Nat → α → List β} {g : α → List γ} {p : β → γ}
    (h : ∀ i a, (f i a).map p = g a) (xs : List α) : (indexed f xs).map p = xs.flatMap g := by
  rw [indexed, List.map_flatMap]
  simp only [h]
  rw [← List.flatMap_map Prod.fst, List.zipIdx_map_fst]

variable (r : Registry) (schema : Schema) (params : Params)

open Params (Place)

/-- The faults about unknown names, at a place. -/
def listing (place : Place) (errors : List PlanError) : List (Place × PlanError) :=
  (errors.filter (·.alternatives?.isSome)).map (place, ·)

/-- The unknown type of a fields parameter, or the unknown names of a known one. -/
def misnamedFields (i : Nat) (param : FieldsParam) : List (Place × PlanError) :=
  if (r.schema? param.typeName).isNone then
    listing (.type i) (faultsOf (compileSelection r param)).flatten
  else
    indexed (fun j name => listing (.selected i j)
      (faultsOf (compileSelection r { param with names := [name] })).flatten) param.names

/-- The unknown names in the parameters, each at its place with the fault that is reported. -/
def misnamings : List (Place × PlanError) :=
  indexed (misnamedFields r) params.fields ++
    indexed (fun i param =>
      listing (.filter i (r.followed schema (Path.ofText param.field).relationships))
        (faultsOf (compileCondition r schema param))) params.filters ++
    indexed (fun i path =>
      listing (.included i (r.followed schema (Text.pieces '.' path)))
        (compileInclude r schema [path]).2) params.includes ++
    indexed (fun i param =>
      listing (.sort i (r.followed schema (Path.ofText param.field).relationships))
        (faultsOf (compileSortKey r schema (compileInclude r schema params.includes).1 param)))
      params.sort

variable {r schema params}

theorem mem_listing {place other : Place} {errors : List PlanError} {e : PlanError} :
    (place, e) ∈ listing other errors ↔ place = other ∧ e ∈ errors ∧ e.alternatives?.isSome := by
  simp only [listing, List.mem_map, List.mem_filter, Prod.mk.injEq]
  constructor
  · rintro ⟨e', hm, rfl, rfl⟩
    exact ⟨rfl, hm⟩
  · rintro ⟨rfl, hm⟩
    exact ⟨e, hm, rfl, rfl⟩

theorem map_listing (place : Place) (errors : List PlanError) :
    (listing place errors).map (·.2) = errors.filter (·.alternatives?.isSome) := by
  rw [listing, List.map_map]
  exact List.map_id _

theorem map_indexed_listing {α : Type} (place : Nat → α → Place) (faults : α → List PlanError)
    (xs : List α) : (indexed (fun i a => listing (place i a) (faults a)) xs).map (·.2) =
      (xs.flatMap faults).filter (·.alternatives?.isSome) := by
  rw [List.filter_flatMap]
  exact map_indexed (fun i a => map_listing (place i a) (faults a)) xs

/-- The faults of a known type are those of its names. -/
theorem flatten_faultsOf_compileSelection {param : FieldsParam} {target : Schema}
    (ht : r.schema? param.typeName = some target) :
    (faultsOf (compileSelection r param)).flatten = param.names.flatMap fun name =>
      (faultsOf (compileSelection r { param with names := [name] })).flatten := by
  have hunknown (names : List String) :
      (faultsOf (compileSelection r { param with names })).flatten =
        (names.filter (!target.hasField ·)).map fun _ =>
          .unknownSelection param.typeName target.allFields := by
    have hfaults := (byMember r target {} none).unknownNames { param with names } target ht
    rwa [faults_field] at hfaults
  rw [hunknown param.names]
  simp only [hunknown]
  induction param.names with
  | nil => rfl
  | cons name rest ih =>
    rw [List.flatMap_cons, ← ih, ← List.map_append, ← List.filter_append, List.singleton_append]

theorem map_misnamedFields (i : Nat) (param : FieldsParam) : (misnamedFields r i param).map (·.2) =
    (faultsOf (compileSelection r param)).flatten.filter (·.alternatives?.isSome) := by
  unfold misnamedFields
  split
  · rw [map_listing]
  · rename_i hsome
    obtain ⟨target, ht⟩ := Option.ne_none_iff_exists'.1 (by simpa using hsome)
    rw [map_indexed_listing, flatten_faultsOf_compileSelection ht]

/-- The faults of include paths about unknown names are those of each path. -/
theorem filter_compileInclude (paths : List String) :
    (compileInclude r schema paths).2.filter (·.alternatives?.isSome) =
      (paths.flatMap fun path => (compileInclude r schema [path]).2).filter
        (·.alternatives?.isSome) := by
  by_cases ha : r.associationsOf schema = []
  · have hforbidden {path : String} : (compileInclude r schema [path]).2 = [.includeForbidden] :=
      compileInclude_snd_of_eq_nil (List.cons_ne_nil path []) ha
    have hnone : (paths.flatMap fun path => (compileInclude r schema [path]).2).filter
        (·.alternatives?.isSome) = [] := by
      simp [hforbidden, List.filter_flatMap, PlanError.alternatives?]
    rw [hnone]
    by_cases hp : paths = []
    · rw [hp, compileInclude_nil]
      rfl
    · rw [compileInclude_snd_of_eq_nil hp ha]
      rfl
  · rw [compileInclude_snd ha]
    simp only [compileInclude_snd ha, List.flatMap_singleton]

theorem filter_compileId (id : Option String) :
    (id.toList.flatMap fun raw => faultsOf (compileId schema raw)).filter
      (·.alternatives?.isSome) = [] := by
  cases id with
  | none => rfl
  | some raw =>
    rw [Option.toList_some, List.flatMap_singleton, compileId]
    split <;> rfl

theorem filter_compilePage (number size : Option String) :
    (compilePage number size).2.filter (·.alternatives?.isSome) = [] := by
  unfold compilePage
  split
  case h_4 => split <;> rfl
  all_goals rfl

/-- Every fault about an unknown name is at a place, in the order in which faults are reported. -/
theorem map_misnamings (id : Option String) : (misnamings r schema params).map (·.2) =
    (faults r schema params id).filter (·.alternatives?.isSome) := by
  rw [faults_eq, misnamings]
  simp only [List.map_append, List.filter_append, map_indexed_listing,
    map_indexed map_misnamedFields, filter_compileId, filter_compileInclude, filter_compilePage,
    List.nil_append, List.append_nil]
  rw [← List.filter_flatMap]

/-! ### What is at a place -/

variable {e : PlanError}

theorem mem_misnamedFields {place : Place} {i : Nat} {param : FieldsParam} :
    (place, e) ∈ misnamedFields r i param ↔ e.alternatives?.isSome ∧
      ((place = .type i ∧ r.schema? param.typeName = none ∧
        e ∈ (faultsOf (compileSelection r param)).flatten) ∨
      ∃ j name, place = .selected i j ∧ param.names[j]? = some name ∧
        (∃ target, r.schema? param.typeName = some target) ∧
        e ∈ (faultsOf (compileSelection r { param with names := [name] })).flatten) := by
  unfold misnamedFields
  cases r.schema? param.typeName with
  | none => simp [mem_listing, and_comm, and_left_comm]
  | some target =>
    simp [mem_indexed, mem_listing, and_comm, and_left_comm]

theorem mem_misnamings_type {i : Nat} : (.type i, e) ∈ misnamings r schema params ↔
    ∃ param, params.fields[i]? = some param ∧ r.schema? param.typeName = none ∧
      e ∈ (faultsOf (compileSelection r param)).flatten ∧ e.alternatives?.isSome := by
  simp [misnamings, mem_indexed, mem_misnamedFields, mem_listing, and_comm, and_left_comm]

theorem mem_misnamings_selected {i j : Nat} : (.selected i j, e) ∈ misnamings r schema params ↔
    ∃ param, params.fields[i]? = some param ∧ ∃ name, param.names[j]? = some name ∧
      (∃ target, r.schema? param.typeName = some target) ∧
      e ∈ (faultsOf (compileSelection r { param with names := [name] })).flatten ∧
      e.alternatives?.isSome := by
  simp [misnamings, mem_indexed, mem_misnamedFields, mem_listing, and_comm, and_left_comm]

theorem mem_misnamings_filter {i k : Nat} : (.filter i k, e) ∈ misnamings r schema params ↔
    ∃ param, params.filters[i]? = some param ∧
      k = r.followed schema (Path.ofText param.field).relationships ∧
      e ∈ faultsOf (compileCondition r schema param) ∧ e.alternatives?.isSome := by
  simp [misnamings, mem_indexed, mem_misnamedFields, mem_listing, and_comm, and_left_comm]

theorem mem_misnamings_included {i k : Nat} : (.included i k, e) ∈ misnamings r schema params ↔
    ∃ path, params.includes[i]? = some path ∧ k = r.followed schema (Text.pieces '.' path) ∧
      e ∈ (compileInclude r schema [path]).2 ∧ e.alternatives?.isSome := by
  simp [misnamings, mem_indexed, mem_misnamedFields, mem_listing, and_comm, and_left_comm]

theorem mem_misnamings_sort {i k : Nat} : (.sort i k, e) ∈ misnamings r schema params ↔
    ∃ param, params.sort[i]? = some param ∧
      k = r.followed schema (Path.ofText param.field).relationships ∧
      e ∈ faultsOf (compileSortKey r schema (compileInclude r schema params.includes).1 param) ∧
      e.alternatives?.isSome := by
  simp [misnamings, mem_indexed, mem_misnamedFields, mem_listing, and_comm, and_left_comm]

/-! ## Alternatives are taken -/

/-- A fault at a place is about the name there, and what it lists is known in its place. -/
structure Offers (schemas : List Schema) (r : Registry) (schema : Schema) (params : Params)
    (place : Place) (e : PlanError) (known : List String) : Prop where
  alternatives : e.alternatives? = some known
  listed : known ≠ [] → ∃ before after, e.detail = before ++ quotedList known ++ after
  about : ∃ name, params.name? place = some name ∧ e.IsAbout name
  /-- With an alternative at the place, no name is unknown there. -/
  taken : ∀ name ∈ known, place.Takes schemas name →
    (params.rename name place).name? place = some name ∧
      ∀ other, (place, other) ∉ misnamings r schema (params.rename name place)

theorem getElem?_modify {α : Type} {xs : List α} {i : Nat} {x : α} (h : xs[i]? = some x)
    (f : α → α) : (xs.modify i f)[i]? = some (f x) := by
  rw [List.getElem?_modify_eq, h]
  rfl

variable {schemas : List Schema} {i j k : Nat}

theorem compileSelection_of_eq_none {param : FieldsParam} (h : r.schema? param.typeName = none) :
    compileSelection r param = .error [.unknownType param.typeName (r.schemas.map (·.name))] := by
  rw [compileSelection, h]

theorem offers_type (hi : r.Indexes schemas) (hr : r.Coherent)
    (h : (.type i, e) ∈ misnamings r schema params) :
    ∃ known, Offers schemas r schema params (.type i) e known := by
  obtain ⟨param, hparam, hnone, he, -⟩ := mem_misnamings_type.1 h
  obtain rfl : e = .unknownType param.typeName (r.schemas.map (·.name)) := by
    simpa [compileSelection_of_eq_none hnone, faultsOf] using he
  refine ⟨_, rfl, PlanError.exists_detail_eq rfl,
    ⟨param.typeName, by simp [Params.name?, hparam], rfl⟩, fun name _ hname => ?_⟩
  refine ⟨by simp [Params.name?, Params.rename, hparam], fun other hm => ?_⟩
  obtain ⟨renamed, hrenamed, hnone', -⟩ := mem_misnamings_type.1 hm
  obtain rfl := Option.some.inj ((getElem?_modify hparam _).symm.trans hrenamed)
  obtain ⟨s, hs, rfl⟩ := List.mem_map.1 hname
  cases (hr.schema?_fullName (hi.registered ▸ hs)).symm.trans hnone'

/-- The one name that is selected of a type is a field, or there is a fault about it. -/
theorem flatten_faultsOf_singleton {typeName name : String} {target : Schema}
    (ht : r.schema? typeName = some target) :
    (faultsOf (compileSelection r ⟨typeName, [name]⟩)).flatten =
      if target.hasField name then [] else [.unknownSelection typeName target.allFields] := by
  rw [compileSelection, ht]
  dsimp only
  cases hf : target.hasField name <;> simp [hf, faultsOf]

theorem offers_selected (h : (.selected i j, e) ∈ misnamings r schema params) :
    ∃ known, Offers schemas r schema params (.selected i j) e known := by
  obtain ⟨param, hparam, name, hname, ⟨target, ht⟩, he, -⟩ := mem_misnamings_selected.1 h
  rw [flatten_faultsOf_singleton ht] at he
  split at he
  · cases he
  rename_i hunknown
  obtain rfl := List.mem_singleton.1 he
  have hlt : j < param.names.length := (List.getElem?_eq_some_iff.1 hname).1
  refine ⟨_, rfl, PlanError.exists_detail_eq rfl, ⟨name, by simp [Params.name?, hparam, hname],
    fun hm => hunknown (Schema.hasField_iff.2 hm)⟩, fun new hnew _ => ?_⟩
  refine ⟨by simp [Params.name?, Params.rename, hparam, hlt], fun other hm => ?_⟩
  obtain ⟨renamed, hrenamed, name', hname', -, he', -⟩ := mem_misnamings_selected.1 hm
  obtain rfl := Option.some.inj ((getElem?_modify hparam _).symm.trans hrenamed)
  obtain rfl : new = name' := by simpa [hlt] using hname'
  rw [flatten_faultsOf_singleton ht, if_pos (Schema.hasField_iff.2 hnew)] at he'
  cases he'

/-- A place on a path to a field takes every name that is listed there. -/
theorem offers_of_misnamed (hi : r.Indexes schemas) (hr : r.Coherent) (hs : schema ∈ schemas)
    {place : Place} {text name : String} {known : List String} (hk : e.alternatives? = some known)
    (hmisnamed : (Path.ofText text).Misnamed r schema k name known) (habout : e.IsAbout name)
    (hat : params.name? place = (Text.pieces '.' text)[k]?)
    (hrenamed : ∀ new, (params.rename new place).name? place =
      (Text.pieces '.' (Params.renamePath k new text))[k]?)
    (hplace : ∀ new other, (place, other) ∈ misnamings r schema (params.rename new place) →
      ∃ name known, (Path.ofText (Params.renamePath k new text)).Misnamed r schema k name known)
    (htakes : ∀ new, place.Takes schemas new → '.' ∉ new.toList) :
    Offers schemas r schema params place e known := by
  have hname := hmisnamed.part_at
  rw [Path.parts_ofText] at hname
  have hlt : k < (Text.pieces '.' text).length := (List.getElem?_eq_some_iff.1 hname).1
  refine ⟨hk, PlanError.exists_detail_eq hk, ⟨name, hat.trans hname, habout⟩,
    fun new hnew htaken => ?_⟩
  have hdot := htakes new htaken
  refine ⟨(hrenamed new).trans (Path.getElem?_pieces_renamePath hlt hdot), fun other hm => ?_⟩
  obtain ⟨name', known', hmisnamed'⟩ := hplace new other hm
  rw [Path.ofText_renamePath hdot] at hmisnamed'
  exact hmisnamed.not_set hi hr hs hnew _ _ hmisnamed'

/-- What a filter finds unknown is unknown on its path. -/
theorem misnamed_filter (h : (.filter i k, e) ∈ misnamings r schema params) :
    ∃ param name known, params.filters[i]? = some param ∧ e.alternatives? = some known ∧
      (Path.ofText param.field).Misnamed r schema k name known ∧ e.IsAbout name := by
  obtain ⟨param, hparam, rfl, he, hlists⟩ := mem_misnamings_filter.1 h
  obtain ⟨known, hk⟩ := Option.isSome_iff_exists.1 hlists
  obtain ⟨name, hmisnamed, habout⟩ := misnamed_of_compileCondition (mem_faultsOf.1 he) hk
  exact ⟨param, name, known, hparam, hk, hmisnamed, habout⟩

/-- What a sort key finds unknown is unknown on its path. -/
theorem misnamed_sort (h : (.sort i k, e) ∈ misnamings r schema params) :
    ∃ param name known, params.sort[i]? = some param ∧ e.alternatives? = some known ∧
      (Path.ofText param.field).Misnamed r schema k name known ∧ e.IsAbout name := by
  obtain ⟨param, hparam, rfl, he, hlists⟩ := mem_misnamings_sort.1 h
  obtain ⟨known, hk⟩ := Option.isSome_iff_exists.1 hlists
  obtain ⟨name, hmisnamed, habout⟩ := misnamed_of_compileSortKey (mem_faultsOf.1 he) hk
  exact ⟨param, name, known, hparam, hk, hmisnamed, habout⟩

theorem offers_filter (hi : r.Indexes schemas) (hr : r.Coherent) (hs : schema ∈ schemas)
    (h : (.filter i k, e) ∈ misnamings r schema params) :
    ∃ known, Offers schemas r schema params (.filter i k) e known := by
  obtain ⟨param, name, known, hparam, hk, hmisnamed, habout⟩ := misnamed_filter h
  refine ⟨known, offers_of_misnamed hi hr hs hk hmisnamed habout
    (by simp [Params.name?, hparam]) (by simp [Params.name?, Params.rename, hparam]) ?_
    fun _ htakes => htakes⟩
  intro new other hm
  obtain ⟨renamed, name', known', hrenamed, -, hmisnamed', -⟩ := misnamed_filter hm
  obtain rfl := Option.some.inj ((getElem?_modify hparam _).symm.trans hrenamed)
  exact ⟨name', known', hmisnamed'⟩

theorem offers_sort (hi : r.Indexes schemas) (hr : r.Coherent) (hs : schema ∈ schemas)
    (h : (.sort i k, e) ∈ misnamings r schema params) :
    ∃ known, Offers schemas r schema params (.sort i k) e known := by
  obtain ⟨param, name, known, hparam, hk, hmisnamed, habout⟩ := misnamed_sort h
  refine ⟨known, offers_of_misnamed hi hr hs hk hmisnamed habout
    (by simp [Params.name?, hparam]) (by simp [Params.name?, Params.rename, hparam]) ?_
    fun _ htakes => htakes⟩
  intro new other hm
  obtain ⟨renamed, name', known', hrenamed, -, hmisnamed', -⟩ := misnamed_sort hm
  obtain rfl := Option.some.inj ((getElem?_modify hparam _).symm.trans hrenamed)
  exact ⟨name', known', hmisnamed'⟩

/-- A fault of an include path about an unknown name is that the path goes astray. -/
theorem strays_of_compileInclude {path : String} (he : e ∈ (compileInclude r schema [path]).2)
    (hlists : e.alternatives?.isSome) : ∃ owner name,
      r.Strays schema (Text.pieces '.' path) (r.followed schema (Text.pieces '.' path)) owner name ∧
        e = .unknownInclude path name owner.name owner.relationshipNames := by
  by_cases ha : r.associationsOf schema = []
  · rw [compileInclude_snd_of_eq_nil (List.cons_ne_nil path []) ha] at he
    rw [List.mem_singleton.1 he] at hlists
    cases hlists
  · rw [compileInclude_snd ha, List.flatMap_singleton, Option.mem_toList] at he
    exact strays_of_grow he

theorem offers_included (hi : r.Indexes schemas) (hr : r.Coherent) (hs : schema ∈ schemas)
    (h : (.included i k, e) ∈ misnamings r schema params) :
    ∃ known, Offers schemas r schema params (.included i k) e known := by
  obtain ⟨path, hpath, rfl, he, hlists⟩ := mem_misnamings_included.1 h
  obtain ⟨owner, name, hstrays, rfl⟩ := strays_of_compileInclude he hlists
  have hname := hstrays.name_at
  have ho : owner ∈ schemas := ((hi.leads_iff_walks hr hs).1 hstrays.leads).mem hs
  refine ⟨_, rfl, PlanError.exists_detail_eq rfl,
    ⟨name, by simp [Params.name?, hpath, hname], rfl⟩, fun new hnew hdot => ?_⟩
  have hat := Path.getElem?_pieces_renamePath (List.getElem?_eq_some_iff.1 hname).1 hdot
  refine ⟨by simp [Params.name?, Params.rename, hpath, hat], fun other hm => ?_⟩
  obtain ⟨renamed, hrenamed, hk, he', hlists'⟩ := mem_misnamings_included.1 hm
  obtain rfl := Option.some.inj ((getElem?_modify hpath _).symm.trans hrenamed)
  obtain ⟨owner', name', hstrays', -⟩ := strays_of_compileInclude he' hlists'
  rw [← hk, Path.pieces_renamePath hdot] at hstrays'
  exact hstrays.not_set ((hi.association owner new).2 ⟨owner, ho, rfl, hnew⟩) _ _ hstrays'

/-- **Alternatives are taken.** Each fault about an unknown name has a place, and what it lists is
known there. -/
theorem alternatives_taken (h : Registry.assemble schemas = .ok r) (hs : schema ∈ schemas)
    (params : Params) (id : Option String) :
    (misnamings r schema params).map (·.2) =
        (faults r schema params id).filter (·.alternatives?.isSome) ∧
      ∀ place e, (place, e) ∈ misnamings r schema params →
        ∃ known, Offers schemas r schema params place e known := by
  have hi := Registry.indexes_of_assemble h
  have hr := Registry.coherent_of_assemble h
  refine ⟨map_misnamings id, fun place e hm => ?_⟩
  cases place with
  | type i => exact offers_type hi hr hm
  | selected i j => exact offers_selected hm
  | filter i k => exact offers_filter hi hr hs hm
  | included i k => exact offers_included hi hr hs hm
  | sort i k => exact offers_sort hi hr hs hm

/-- Parameters with an unknown name in every place. -/
def misspelt : Params where
  fields := [⟨"Usr", ["id"]⟩, ⟨"User", ["id", "name"]⟩]
  filters := [⟨"todos.title", .eq, ["shop"]⟩]
  includes := ["todos", "todo"]
  sort := [⟨"-id", .asc⟩]

/-- The misspelt names, each with what is known in its place. -/
theorem alternatives_misspelt :
    Registry.assemble [todo, adminUser, user] = .ok duties ∧ user ∈ [todo, adminUser, user] ∧
      (misnamings duties user misspelt).map (·.1) =
        [.type 0, .selected 1 1, .filter 0 1, .included 1 0, .sort 0 0] ∧
      (misnamings duties user misspelt).map (·.2) =
        (faults duties user misspelt none).filter (·.alternatives?.isSome) ∧
      ∀ place e, (place, e) ∈ misnamings duties user misspelt →
        ∃ known, Offers [todo, adminUser, user] duties user misspelt place e known :=
  have hs : user ∈ [todo, adminUser, user] := by simp
  ⟨Registry.assemble_duties, hs, by decide +kernel,
    alternatives_taken Registry.assemble_duties hs misspelt none⟩

/-- The registry of a user in a namespace. -/
def namespaced : Registry where
  schemas := [todo, adminUser]
  associations := [⟨"todos", adminUser, todo, .hasMany "userId"⟩]
  foreignKeys := [⟨"Todo", "userId", adminUser⟩]

/-- A type of a namespace is listed by a name that is refused in turn, and so is a dotted key. -/
theorem alternatives_refused :
    (Registry.assemble [todo, adminUser] = .ok namespaced ∧
      let params : Params := { fields := [⟨"Usr", ["id"]⟩] }
      (.type 0, .unknownType "Usr" ["Todo", "User"]) ∈ misnamings namespaced todo params ∧
      (.type 0, .unknownType "User" ["Todo", "User"]) ∈
        misnamings namespaced todo (params.rename "User" (.type 0))) ∧
    Registry.assemble [dottedNote] = .ok dottedNotes ∧
      let params : Params := { filters := [⟨"c", .eq, ["1"]⟩] }
      (.filter 0 0, .unknownFilter "c" ["a.b", "text"]) ∈
        misnamings dottedNotes dottedNote params ∧
      (.filter 0 0, .unknownRelationship "filter[a.b]" "a" "Note" []) ∈
        misnamings dottedNotes dottedNote (params.rename "a.b" (.filter 0 0)) := by
  decide +kernel

end Plan

end ResourceApi
