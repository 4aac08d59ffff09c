import ResourceApi.Coercion
import ResourceApi.Query.Params
import ResourceApi.Rejection

/-!
# Compiling parameters into plans

`compile` checks the parameters of a query string against the registry and builds a plan from
them. The sections are checked independently and all faults are reported together: fields,
identifier and filters, include, sort, page.
-/

namespace ResourceApi

/-- Why parameters do not form a plan. The lists hold the names that would have been accepted. -/
inductive PlanError where
  | unknownType (typeName : String) (known : List String)
  | unknownSelection (typeName : String) (known : List String)
  | invalidId (field detail : String)
  | unknownRelationship (parameter segment schema : String) (known : List String)
  | unknownFilter (field : String) (known : List String)
  | wrongValue (field : String) (cause : CoercionError)
  | severalValues (field : String) (operator : Operator)
  | includeForbidden
  | unknownInclude (path segment schema : String) (known : List String)
  | unknownSort (known : List String)
  | sortNotIncluded (relationships field : String)
  | sizeMissing
  | numberMissing
  | numberInvalid
  | sizeInvalid
  deriving DecidableEq, Repr

namespace PlanError

/-- The kind under which the error is reported. -/
def kind : PlanError → ErrorKind
  | unknownRelationship .. | unknownInclude .. => .relationshipPath
  | _ => .unexpectedValue

/-- The error in words. -/
def detail : PlanError → String
  | unknownType _ known => s!"URL must have 'fields[x]' where 'x' is one of {quotedList known}."
  | unknownSelection typeName known =>
    s!"URL must have 'fields[{typeName}]' as comma separated values containing one or more of "
      ++ s!"{quotedList known}."
  | invalidId _ detail => detail
  | unknownRelationship _ segment schema known =>
    if known.isEmpty then s!"'{segment}' is not a relationship of '{schema}'."
    else s!"'{segment}' is not a relationship of '{schema}'; expected one of {quotedList known}."
  | unknownFilter _ known => s!"URL must have 'filter[x]' where 'x' is one of {quotedList known}."
  | wrongValue _ cause => cause.message
  | severalValues field operator => s!"Operator '{operator.name}' on '{field}' takes a single value."
  | includeForbidden => "URL must not have 'include' as parameter."
  | unknownInclude path segment schema known =>
    if known.isEmpty then
      s!"URL must have 'include' as valid relationship paths; '{schema}' has no relationship "
        ++ s!"'{segment}' in '{path}'."
    else
      s!"URL must have 'include' as one or more of {quotedList known} for '{schema}'; '{segment}' "
        ++ s!"in '{path}' is unknown."
  | unknownSort known =>
    s!"URL must have 'sort' as comma separated values containing one or more of {quotedList known}."
  | sortNotIncluded relationships field =>
    s!"URL must have 'include' containing '{relationships}' to sort by '{field}'."
  | sizeMissing => "Page number was provided but page size was not provided."
  | numberMissing => "Page size was provided but page number was not provided."
  | numberInvalid => "Page number should be a positive integer."
  | sizeInvalid => "Page size should be a positive integer."

/-- The parameter that the error is about. -/
def parameter : PlanError → String
  | unknownType typeName _ | unknownSelection typeName _ => s!"fields[{typeName}]"
  | invalidId field _ => field
  | unknownRelationship parameter _ _ _ => parameter
  | unknownFilter field _ | wrongValue field _ | severalValues field _ => s!"filter[{field}]"
  | includeForbidden | unknownInclude .. => "include"
  | unknownSort _ | sortNotIncluded .. => "sort"
  | sizeMissing | sizeInvalid => "page[size]"
  | numberMissing | numberInvalid => "page[number]"

/-- The error as it is reported. -/
def toApiError (e : PlanError) : ApiError := .of e.kind e.detail (.parameter e.parameter)

end PlanError

namespace Plan

variable (r : Registry)

/-- The schema that a chain of relationships leads to. The error names the first relationship
that is not one. -/
def resolve (parameter : String) : Schema → List String → Except PlanError Schema
  | schema, [] => .ok schema
  | schema, segment :: rest =>
    match r.association? schema segment with
    | none =>
      .error (.unknownRelationship parameter segment schema.name schema.relationshipNames)
    | some a => resolve parameter a.target rest

/-! ## Include -/

/-- Puts a node in the place of the one with its relationship, or at the end. -/
def place (node : IncludeNode) : List IncludeNode → List IncludeNode
  | [] => [node]
  | n :: rest => if n.relationship = node.relationship then node :: rest else n :: place node rest

/-- Adds the relationships of an include path to a tree, up to the first unknown one. -/
def grow (path : String) : Schema → List String → List IncludeNode →
    List IncludeNode × Option PlanError
  | _, [], nodes => (nodes, none)
  | schema, segment :: rest, nodes =>
    match r.association? schema segment with
    | none => (nodes, some (.unknownInclude path segment schema.name schema.relationshipNames))
    | some a =>
      let node := (nodes.find? (·.relationship = segment)).getD (.leaf segment a.target.fullName)
      let (nested, error) := grow path a.target rest node.nested
      (place (.mk node.relationship node.target node.selection nested) nodes, error)

/-- The include tree of the given paths, and the paths' errors. -/
def compileInclude (schema : Schema) (paths : List String) :
    List IncludeNode × List PlanError :=
  if paths.isEmpty then ([], [])
  else if (r.associationsOf schema).isEmpty then ([], [.includeForbidden])
  else
    paths.foldl (fun (nodes, errors) path =>
      let (nodes, error) := grow r path schema (Text.pieces '.' path) nodes
      (nodes, errors ++ error.toList)) ([], [])

/-! ## Fields -/

/-- The names without repetition, each at its first place. -/
def distinct (names : List String) : List String :=
  names.foldl (fun found name => if name ∈ found then found else found ++ [name]) []

/-- The selection that a fields parameter asks for, or one error for every unknown name. The
primary key is always selected. -/
def compileSelection (param : FieldsParam) :
    Except (List PlanError) (String × List String) :=
  match r.schema? param.typeName with
  | none => .error [.unknownType param.typeName (r.schemas.map (·.name))]
  | some target =>
    match param.names.filter (!target.hasField ·) with
    | [] =>
      let names := distinct param.names
      .ok (target.fullName, if target.idField ∈ names then names else names ++ [target.idField])
    | unknown =>
      .error (unknown.map fun _ => .unknownSelection param.typeName target.allFields)

mutual

/-- Selects names on a node and below it, wherever the target is read. -/
def select (target : String) (names : List String) : IncludeNode → IncludeNode
  | .mk relationship t selection nested =>
    .mk relationship t (if t = target then .only names else selection)
      (selectAll target names nested)

/-- Selects names on every node of a forest. -/
def selectAll (target : String) (names : List String) : List IncludeNode → List IncludeNode
  | [] => []
  | node :: rest => select target names node :: selectAll target names rest

end

/-! ## Filter -/

/-- The value that a filter compares with. -/
def compileValue (owner : Schema) (field : String) (param : FilterParam) :
    Except PlanError Json :=
  let coerce (raw : String) : Except PlanError Json :=
    if param.operator.isPattern then .ok (.str raw)
    else (owner.coerceText field raw).mapError (.wrongValue param.field ·)
  if param.operator.takesArray then do
    let raws := (param.values.flatMap (Text.pieces ',')).filter (!·.isEmpty)
    return .arr (← raws.mapM coerce)
  else
    match param.values with
    | [raw] => coerce raw
    | _ => .error (.severalValues param.field param.operator)

/-- The condition of a filter. -/
def compileCondition (schema : Schema) (param : FilterParam) : Except PlanError Predicate := do
  let path := Path.ofText param.field
  let owner ← resolve r s!"filter[{param.field}]" schema path.relationships
  if !owner.hasField path.field then
    throw (.unknownFilter param.field owner.allFields)
  return .condition ⟨path, param.operator, ← compileValue owner path.field param⟩

/-- The condition on the primary key. -/
def compileId (schema : Schema) (raw : String) : Except PlanError Predicate :=
  match schema.parseId? raw with
  | some id => .ok (.idIs schema id)
  | none => .error (.invalidId schema.idField (schema.invalidId raw))

/-! ## Sort -/

/-- A sort key. A relationship can be sorted by only if it is included. -/
def compileSortKey (schema : Schema) (nodes : List IncludeNode) (param : SortParam) :
    Except PlanError SortKey := do
  let path := Path.ofText param.field
  let owner ← resolve r "sort" schema path.relationships
  if !path.relationships.isEmpty && (IncludeNode.find? nodes path.relationships).isNone then
    throw (.sortNotIncluded (".".intercalate path.relationships) param.field)
  if !owner.hasField path.field then
    throw (.unknownSort owner.allFields)
  return ⟨path, param.direction⟩

/-! ## Page -/

/-- The largest bound of a window that a store takes. -/
def maxWindow : Nat := 0x7fffffffffffffff

/-- A positive number. -/
def positive? (raw : String) : Option Nat := (Text.Numeral.nat? raw).filter (0 < ·)

/-- The limit and the offset of a page. A window past the last representable row selects
nothing. -/
def compilePage (number size : Option String) :
    Option (Nat × Nat) × List PlanError :=
  match number, size with
  | none, none => (none, [])
  | some _, none => (none, [.sizeMissing])
  | none, some _ => (none, [.numberMissing])
  | some number, some size =>
    match positive? number, positive? size with
    | some n, some s => (some (min s maxWindow, min ((n - 1) * s) maxWindow), [])
    | some _, none => (none, [.sizeInvalid])
    | none, some _ => (none, [.numberInvalid])
    | none, none => (none, [.numberInvalid, .sizeInvalid])

/-! ## The plan -/

/-- Compiles parameters for a schema; an identifier restricts the plan to one row. -/
def compile (schema : Schema) (params : Params) (id : Option String) :
    Except (List PlanError) Plan :=
  let (nodes, includeErrors) := compileInclude r schema params.includes
  let (fieldErrors, selections) := sortOut (params.fields.map (compileSelection r))
  let (filterErrors, conditions) :=
    sortOut (id.toList.map (compileId schema) ++ params.filters.map (compileCondition r schema))
  let (sortErrors, keys) := sortOut (params.sort.map (compileSortKey r schema nodes))
  let (window, pageErrors) := compilePage params.pageNumber params.pageSize
  let errors := fieldErrors.flatten ++ filterErrors ++ includeErrors ++ sortErrors ++ pageErrors
  if errors.isEmpty then
    let root := selections.foldl (fun root (target, names) =>
      if target = schema.fullName then Selection.only names else root) .all
    let nodes := selections.foldl (fun nodes (target, names) => selectAll target names nodes) nodes
    .ok { attributes := root, filter := .all conditions, includes := nodes, sort := keys,
          limit := window.map (·.1), offset := window.map (·.2) }
  else .error errors

/-- Reads a query string and compiles it. -/
def ofQuery (schema : Schema) (query : String) (id : Option String) :
    Except Rejection Plan :=
  match Params.parse query with
  | .error e => .error ⟨.parse, [e.toApiError]⟩
  | .ok params =>
    (compile r schema params id).mapError fun errors => ⟨.compile, errors.map (·.toApiError)⟩

end Plan

end ResourceApi
