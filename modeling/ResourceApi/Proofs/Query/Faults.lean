import ResourceApi.Proofs.Query.Acceptance

/-!
# Faults, section by section

Parameters that form no plan are answered with all their faults at once (`Plan.faults`). The faults
come section by section: those of the fields, of the identifier and the filters, of the include
paths, of the sort keys and of the page. What a section reports does not depend on the other
sections, only sort keys look at what is included. So it is what is reported when nothing but that
section is given.

**Theorem (`Plan.faults_by_section`).** Compiling fails exactly if some section has a fault, with
the faults of all sections in order. Within a section each member adds its own faults: at most one for
an identifier, a filter, an include path and a sort key, one for a type that is unknown, and one for
each unknown name of a known type.

The include paths are compiled first, along a tree that grows. Their faults are told apart from the
tree (`grow_snd_eq`), and with that every section is a list of checks whose faults are put together
(`faults_eq`).
-/

namespace ResourceApi

/-! ## Parameters of one section -/

namespace Params

variable (params : Params)

/-- The parameters without all but the selected fields. -/
def onlyFields : Params := { fields := params.fields }

/-- The parameters without all but the filters. -/
def onlyFilters : Params := { filters := params.filters }

/-- The parameters without all but the include paths. -/
def onlyIncludes : Params := { includes := params.includes }

/-- The parameters without all but the sort keys and what these may lead through. -/
def onlySort : Params := { includes := params.includes, sort := params.sort }

/-- The parameters without all but the page. -/
def onlyPage : Params := { pageNumber := params.pageNumber, pageSize := params.pageSize }

end Params

namespace Plan

/-! ## What is reported -/

section

variable (r : Registry) (schema : Schema) (params : Params) (id : Option String)

/-- What is reported about parameters: nothing if they form a plan. -/
def faults : List PlanError :=
  match compile r schema params id with
  | .ok _ => []
  | .error errors => errors

/-- What is reported about sort keys, behind what is reported about include paths. -/
def sortFaults : List PlanError :=
  (faults r schema params.onlySort none).drop (faults r schema params.onlyIncludes none).length

/-- The faults of parameters are those of their sections. -/
structure BySection : Prop where
  /-- Compiling fails with the faults of all sections, in this order. -/
  error_iff : ∀ errors, compile r schema params id = .error errors ↔ errors ≠ [] ∧
    errors = faults r schema params.onlyFields none ++ faults r schema params.onlyFilters id ++
      faults r schema params.onlyIncludes none ++ sortFaults r schema params ++
      faults r schema params.onlyPage none
  /-- Sort keys alone with include paths are reported behind these. -/
  sort : faults r schema params.onlySort none =
    faults r schema params.onlyIncludes none ++ sortFaults r schema params

/-- What the members of a section add to its faults. -/
structure ByMember : Prop where
  fields : faults r schema params.onlyFields none =
    params.fields.flatMap fun param => faults r schema { fields := [param] } none
  unknownType : ∀ param, r.schema? param.typeName = none →
    faults r schema { fields := [param] } none =
      [.unknownType param.typeName (r.schemas.map (·.name))]
  /-- There is one fault for each unknown name, as often as it is given. -/
  unknownNames : ∀ param target, r.schema? param.typeName = some target →
    faults r schema { fields := [param] } none =
      (param.names.filter (!target.hasField ·)).map fun _ =>
        .unknownSelection param.typeName target.allFields
  filters : faults r schema params.onlyFilters id = faults r schema {} id ++
    params.filters.flatMap fun param => faults r schema { filters := [param] } none
  id_le : (faults r schema {} id).length ≤ 1
  filter_le : ∀ param, (faults r schema { filters := [param] } none).length ≤ 1
  /-- A schema without relationships has one fault for all include paths. -/
  includes : faults r schema params.onlyIncludes none =
    if (r.associationsOf schema).isEmpty then
      if params.includes.isEmpty then [] else [.includeForbidden]
    else params.includes.flatMap fun path => faults r schema { includes := [path] } none
  include_le : ∀ path, (faults r schema { includes := [path] } none).length ≤ 1
  sortKeys : sortFaults r schema params = params.sort.flatMap fun param =>
    sortFaults r schema { includes := params.includes, sort := [param] }
  sortKey_le : ∀ param,
    (sortFaults r schema { includes := params.includes, sort := [param] }).length ≤ 1

end

variable {r : Registry} {schema : Schema} {params : Params} {id : Option String}

/-! ## Include paths -/

/-- Whether a path is refused does not depend on the tree. -/
theorem grow_snd_eq {path : String} {names : List String} (nodes others : List IncludeNode) :
    (grow r path schema names nodes).2 = (grow r path schema names others).2 := by
  induction names generalizing schema nodes others with
  | nil => rfl
  | cons name rest ih =>
    unfold grow
    cases r.association? schema name with
    | none => rfl
    | some a => exact ih _ _

/-- The fault of an include path: its first relationship that is none. -/
def pathFault? (r : Registry) (schema : Schema) (path : String) : Option PlanError :=
  (grow r path schema (Text.pieces '.' path) []).2

theorem foldl_addPath_snd {paths : List String} {start : List IncludeNode × List PlanError} :
    (paths.foldl (addPath r schema) start).2 =
      start.2 ++ paths.flatMap fun path => (pathFault? r schema path).toList := by
  induction paths generalizing start with
  | nil => simp
  | cons path rest ih =>
    have hpath : (addPath r schema start path).2 =
        start.2 ++ (pathFault? r schema path).toList := by
      rw [pathFault?, grow_snd_eq [] start.1]
      rfl
    rw [List.foldl_cons, ih, hpath, List.flatMap_cons, List.append_assoc]

theorem compileInclude_snd {paths : List String} (ha : r.associationsOf schema ≠ []) :
    (compileInclude r schema paths).2 =
      paths.flatMap fun path => (pathFault? r schema path).toList := by
  by_cases hp : paths = []
  · rw [hp]
    rfl
  · rw [compileInclude_eq_foldl hp ha, foldl_addPath_snd, List.nil_append]

theorem compileInclude_snd_of_eq_nil {paths : List String} (hp : paths ≠ [])
    (ha : r.associationsOf schema = []) :
    (compileInclude r schema paths).2 = [.includeForbidden] := by
  rw [compileInclude, if_neg (by simpa using hp), if_pos (by simpa using ha)]

theorem compileInclude_nil : compileInclude r schema [] = ([], []) := rfl

/-! ## Sections -/

theorem faults_eq : faults r schema params id =
    (params.fields.flatMap fun param => (faultsOf (compileSelection r param)).flatten) ++
      ((id.toList.flatMap fun raw => faultsOf (compileId schema raw)) ++
        params.filters.flatMap fun param => faultsOf (compileCondition r schema param)) ++
      (compileInclude r schema params.includes).2 ++
      (params.sort.flatMap fun param =>
        faultsOf (compileSortKey r schema (compileInclude r schema params.includes).1 param)) ++
      (compilePage params.pageNumber params.pageSize).2 := by
  have hfields : (params.fields.flatMap fun param => faultsOf (compileSelection r param)).flatten =
      params.fields.flatMap fun param => (faultsOf (compileSelection r param)).flatten := by
    rw [← List.flatMap_id, List.flatMap_assoc]
    simp only [List.flatMap_id]
  unfold faults compile
  simp only [sortOut_fst, List.flatMap_append, List.flatMap_map, hfields]
  split
  · rename_i plan h
    split at h
    · rename_i hnone
      exact (List.isEmpty_iff.1 hnone).symm
    · cases h
  · rename_i errors h
    split at h
    · cases h
    · exact (Except.error.inj h).symm

theorem compilePage_none : (compilePage none none).2 = [] := rfl

theorem faults_onlyFields : faults r schema params.onlyFields none =
    params.fields.flatMap fun param => (faultsOf (compileSelection r param)).flatten := by
  simp [faults_eq, Params.onlyFields, compileInclude_nil, compilePage_none]

theorem faults_onlyFilters : faults r schema params.onlyFilters id =
    (id.toList.flatMap fun raw => faultsOf (compileId schema raw)) ++
      params.filters.flatMap fun param => faultsOf (compileCondition r schema param) := by
  simp [faults_eq, Params.onlyFilters, compileInclude_nil, compilePage_none]

theorem faults_onlyIncludes : faults r schema params.onlyIncludes none =
    (compileInclude r schema params.includes).2 := by
  simp [faults_eq, Params.onlyIncludes, compilePage_none]

theorem faults_onlySort : faults r schema params.onlySort none =
    (compileInclude r schema params.includes).2 ++ params.sort.flatMap fun param =>
      faultsOf (compileSortKey r schema (compileInclude r schema params.includes).1 param) := by
  simp [faults_eq, Params.onlySort, compilePage_none]

theorem faults_onlyPage : faults r schema params.onlyPage none =
    (compilePage params.pageNumber params.pageSize).2 := by
  simp [faults_eq, Params.onlyPage, compileInclude_nil]

theorem sortFaults_eq : sortFaults r schema params = params.sort.flatMap fun param =>
    faultsOf (compileSortKey r schema (compileInclude r schema params.includes).1 param) := by
  rw [sortFaults, faults_onlySort, faults_onlyIncludes, List.drop_left]

/-- Compiling fails exactly if something is reported. -/
theorem compile_eq_error_iff {errors : List PlanError} :
    compile r schema params id = .error errors ↔
      errors ≠ [] ∧ errors = faults r schema params id := by
  constructor
  · intro h
    exact ⟨ne_nil_of_compile h, by rw [faults, h]⟩
  · rintro ⟨hne, rfl⟩
    unfold faults at hne ⊢
    cases hc : compile r schema params id with
    | ok plan =>
      rw [hc] at hne
      exact absurd rfl hne
    | error errors => rfl

theorem bySection (r : Registry) (schema : Schema) (params : Params) (id : Option String) :
    BySection r schema params id where
  error_iff errors := by
    rw [compile_eq_error_iff, faults_eq, faults_onlyFields, faults_onlyFilters,
      faults_onlyIncludes, sortFaults_eq, faults_onlyPage]
  sort := by rw [faults_onlySort, faults_onlyIncludes, sortFaults_eq]

/-! ## Members -/

theorem faults_field (param : FieldsParam) : faults r schema { fields := [param] } none =
    (faultsOf (compileSelection r param)).flatten := by
  show faults r schema (Params.onlyFields { fields := [param] }) none = _
  rw [faults_onlyFields, List.flatMap_singleton]

theorem faults_filter (param : FilterParam) : faults r schema { filters := [param] } none =
    faultsOf (compileCondition r schema param) := by
  show faults r schema (Params.onlyFilters { filters := [param] }) none = _
  rw [faults_onlyFilters, List.flatMap_singleton]
  rfl

theorem faults_id : faults r schema {} id =
    id.toList.flatMap fun raw => faultsOf (compileId schema raw) := by
  show faults r schema (Params.onlyFilters {}) id = _
  rw [faults_onlyFilters, List.flatMap_nil, List.append_nil]

theorem faults_include (path : String) : faults r schema { includes := [path] } none =
    (compileInclude r schema [path]).2 := by
  show faults r schema (Params.onlyIncludes { includes := [path] }) none = _
  rw [faults_onlyIncludes]

theorem faults_include_of_ne_nil (ha : r.associationsOf schema ≠ []) (path : String) :
    faults r schema { includes := [path] } none = (pathFault? r schema path).toList := by
  rw [faults_include, compileInclude_snd ha, List.flatMap_singleton]

theorem sortFaults_singleton (includes : List String) (param : SortParam) :
    sortFaults r schema { includes, sort := [param] } =
      faultsOf (compileSortKey r schema (compileInclude r schema includes).1 param) := by
  rw [sortFaults_eq, List.flatMap_singleton]

theorem byMember (r : Registry) (schema : Schema) (params : Params) (id : Option String) :
    ByMember r schema params id where
  fields := by simp only [faults_onlyFields, faults_field]
  unknownType param hnone := by
    rw [faults_field, compileSelection, hnone]
    rfl
  unknownNames param target htarget := by
    rw [faults_field, compileSelection, htarget]
    dsimp only
    split
    · rename_i hnone
      rw [hnone]
      rfl
    · exact List.append_nil _
  filters := by simp only [faults_onlyFilters, faults_id, faults_filter]
  id_le := by
    rw [faults_id]
    cases id with
    | none => exact Nat.zero_le 1
    | some raw => simpa using faultsOf_length_le (compileId schema raw)
  filter_le param := by
    rw [faults_filter]
    exact faultsOf_length_le _
  includes := by
    rw [faults_onlyIncludes]
    by_cases ha : r.associationsOf schema = []
    · by_cases hp : params.includes = []
      · simp [ha, hp, compileInclude_nil]
      · simp [ha, hp, compileInclude_snd_of_eq_nil hp ha]
    · simp [ha, compileInclude_snd ha, faults_include_of_ne_nil ha]
  include_le path := by
    by_cases ha : r.associationsOf schema = []
    · rw [faults_include, compileInclude_snd_of_eq_nil (List.cons_ne_nil path []) ha]
      exact Nat.le_refl 1
    · rw [faults_include_of_ne_nil ha]
      exact Option.length_toList_le
  sortKeys := by simp only [sortFaults_eq, List.flatMap_singleton]
  sortKey_le param := by
    rw [sortFaults_singleton]
    exact faultsOf_length_le _

/-- **Faults come section by section**, and within a section member by member. -/
theorem faults_by_section (r : Registry) (schema : Schema) (params : Params) (id : Option String) :
    BySection r schema params id ∧ ByMember r schema params id :=
  ⟨bySection r schema params id, byMember r schema params id⟩

end Plan

end ResourceApi
