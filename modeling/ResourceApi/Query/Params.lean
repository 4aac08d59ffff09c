import ResourceApi.ApiError
import ResourceApi.Query.Plan
import ResourceApi.Text.Percent

/-!
# Query strings

A query string is a sequence of pairs joined by `&`. Each pair is read on its own into an `Entry`
of one of five buckets (`filter`, `sort`, `include`, `fields`, `page`), or ignored; the entries
are then gathered into `Params`. Nothing here knows a schema. The first pair that cannot be read,
or that repeats a page parameter, is the error of the whole.

A key is a bucket name followed by segments in square brackets, such as
`filter[user.name][$like]`.
-/

namespace ResourceApi

/-- Values to compare a field with, in the order of their pairs. -/
structure FilterParam where
  field : String
  operator : Operator
  values : List String
  deriving DecidableEq, Repr

/-- A field to sort by. -/
structure SortParam where
  field : String
  direction : Direction
  deriving DecidableEq, Repr

/-- The fields wanted of a type. -/
structure FieldsParam where
  typeName : String
  names : List String
  deriving DecidableEq, Repr

/-- A query string, taken apart but not checked. -/
structure Params where
  filters : List FilterParam := []
  sort : List SortParam := []
  includes : List String := []
  fields : List FieldsParam := []
  pageNumber : Option String := none
  pageSize : Option String := none
  deriving DecidableEq, Repr

/-- Why a query string cannot be read. -/
inductive ParamError where
  | malformed (text : String)
  | unsupportedPage (key : String)
  | repeatedPage (key : String)
  | unknownOperator (key operator : String)
  deriving DecidableEq, Repr

/-- The error as it is reported. -/
def ParamError.toApiError : ParamError → ApiError
  | malformed text =>
    .of .unexpectedValue s!"Unable to parse the query string parameter '{text}'." (.parameter text)
  | unsupportedPage key =>
    .of .unexpectedValue
      s!"Page parameter '{key}' is not supported; use 'page[number]' and 'page[size]'."
      (.parameter key)
  | repeatedPage key =>
    .of .unexpectedValue s!"URL must have '{key}' at most once." (.parameter key)
  | unknownOperator key operator =>
    let supported := quotedList (Operator.all.map (·.name))
    .of .unexpectedValue
      s!"Unknown filter operator '{operator}'; supported operators are {supported}."
      (.parameter key)

/-- What one pair of a query string asks for. -/
inductive Entry where
  | filter (field : String) (operator : Operator) (value : String)
  | sort (keys : List SortParam)
  | includes (paths : List String)
  | fields (typeName : String) (names : List String)
  | pageNumber (value : String)
  | pageSize (value : String)
  /-- A parameter of another bucket. -/
  | ignored
  deriving DecidableEq, Repr

namespace Entry

/-! ## Keys -/

/-- A character that may stand in a bucket name or segment. -/
def isNameChar (c : Char) : Bool := c != '[' && c != ']'

/-- The segments of a key behind its bucket name; they may be empty. -/
def segments? : List Char → Option (List String)
  | [] => some []
  | c :: rest =>
    if c ≠ '[' then none
    else
      match _h : rest.dropWhile isNameChar with
      | ']' :: after =>
        (segments? after).map (String.ofList (rest.takeWhile isNameChar) :: ·)
      | _ => none
  termination_by cs => cs.length
  decreasing_by
    have := (List.dropWhile_sublist (l := rest) isNameChar).length_le
    rw [_h] at this
    simp only [List.length_cons] at this ⊢
    omega

/-- The buckets that are read. -/
def buckets : List String := ["filter", "sort", "include", "fields", "page"]

/-! ## Values -/

/-- The items of a comma-separated list. Nothing is an empty list; an empty item is refused. -/
def items? (value : String) : Option (List String) :=
  if value.isEmpty then some []
  else
    let items := Text.pieces ',' value
    if items.any (·.isEmpty) then none else some items

/-- A sort key; a minus sign in front asks for descending order. -/
def sortParam? (item : String) : Option SortParam :=
  let key : SortParam := match item.toList with
    | '-' :: field => ⟨String.ofList field, .desc⟩
    | _ => ⟨item, .asc⟩
  if key.field.isEmpty then none else some key

/-! ## Pairs -/

/-- A filter entry from the segments of its key. An empty last segment is allowed. -/
def ofFilter (key : String) (segments : List String) (value : String) :
    Except ParamError Entry :=
  let entry (field operator : String) : Except ParamError Entry :=
    match Operator.ofName? operator with
    | none => .error (.unknownOperator key operator)
    | some o => if field.isEmpty then .error (.malformed key) else .ok (.filter field o value)
  match segments with
  | [field] | [field, ""] => entry field Operator.eq.name
  | [field, operator] | [field, operator, ""] => entry field operator
  | _ => .error (.malformed key)

/-- The entry of a decoded key and value. -/
def ofKey (key value : String) : Except ParamError Entry :=
  let malformed : Except ParamError Entry := .error (.malformed key)
  let bucket := String.ofList (key.toList.takeWhile (· != '['))
  if bucket ∉ buckets then .ok .ignored
  else
    match segments? (key.toList.dropWhile (· != '[')) with
    | none => malformed
    | some segments =>
      match bucket, segments with
      | "filter", segments => ofFilter key segments value
      | "sort", [] =>
        match (items? value).bind (·.mapM sortParam?) with
        | some keys => .ok (.sort keys)
        | none => malformed
      | "include", [] =>
        match items? value with
        | some paths => .ok (.includes paths)
        | none => malformed
      | "fields", [typeName] =>
        if typeName.isEmpty then malformed
        else
          match items? value with
          | some names => .ok (.fields typeName names)
          | none => malformed
      | "page", ["number"] => .ok (.pageNumber value)
      | "page", ["size"] => .ok (.pageSize value)
      | "page", [other] => if other.isEmpty then malformed else .error (.unsupportedPage key)
      | _, _ => malformed

/-- Decodes a raw key or value. -/
def decode (raw : List Char) : Except ParamError String :=
  match Text.Percent.decodeForm? (String.ofList raw) with
  | some s => .ok s
  | none => .error (.malformed (String.ofList raw))

/-- The entry of a raw pair. A pair without `=` has an empty value. -/
def ofPair (pair : List Char) : Except ParamError Entry := do
  let (rawKey, rawValue) := (Text.cutFirst '=' pair).getD (pair, [])
  let key ← decode rawKey
  let value ← decode rawValue
  ofKey key value

end Entry

namespace Params

/-- Adds a value to the filter of a field and operator, or begins one. -/
def addFilter (field : String) (operator : Operator) (value : String) :
    List FilterParam → List FilterParam
  | [] => [⟨field, operator, [value]⟩]
  | f :: rest =>
    if f.field = field ∧ f.operator = operator then { f with values := f.values ++ [value] } :: rest
    else f :: addFilter field operator value rest

/-- Adds names to the fields of a type, or begins them. -/
def addFields (typeName : String) (names : List String) : List FieldsParam → List FieldsParam
  | [] => [⟨typeName, names⟩]
  | f :: rest =>
    if f.typeName = typeName then { f with names := f.names ++ names } :: rest
    else f :: addFields typeName names rest

/-- Gathers one entry. A page parameter describes the one window and may not be repeated. -/
def add (p : Params) : Entry → Except ParamError Params
  | .filter field operator value =>
    .ok { p with filters := addFilter field operator value p.filters }
  | .sort keys => .ok { p with sort := p.sort ++ keys }
  | .includes paths => .ok { p with includes := p.includes ++ paths }
  | .fields typeName names => .ok { p with fields := addFields typeName names p.fields }
  | .pageNumber value =>
    if p.pageNumber.isSome then .error (.repeatedPage "page[number]")
    else .ok { p with pageNumber := some value }
  | .pageSize value =>
    if p.pageSize.isSome then .error (.repeatedPage "page[size]")
    else .ok { p with pageSize := some value }
  | .ignored => .ok p

/-- Reads one pair and gathers it. -/
def addPair (p : Params) (pair : List Char) : Except ParamError Params := do
  p.add (← Entry.ofPair pair)

/-- The non-empty pairs of a query string, which may begin with a question mark. -/
def pairs (query : String) : List (List Char) :=
  let cs := match query.toList with
    | '?' :: rest => rest
    | cs => cs
  (Text.splitOn '&' cs).filter (!·.isEmpty)

/-- Reads a query string. -/
def parse (query : String) : Except ParamError Params := (pairs query).foldlM addPair {}

end Params

end ResourceApi
