import ResourceApi.ApiError
import ResourceApi.Double.Text
import ResourceApi.Schema.Basic
import ResourceApi.Timestamp

/-!
# Coercion of attribute values

A query string gives values as text, a document gives them as JSON. Both are brought to the
declared type of the attribute before they reach a plan or a payload. Writes also enforce
bounds; a number is compared with its bounds as a 64-bit floating point number.
-/

namespace ResourceApi

open ResourceApi.Text.Numeral (int? float? minInt maxInt)

/-- What a bound limits. -/
inductive Measure where
  | value
  | length
  deriving DecidableEq, Repr

/-- The name of a measure. -/
def Measure.name : Measure → String
  | value => "value"
  | length => "length"

/-- Why a value does not fit an attribute. -/
inductive CoercionError where
  | wrongType (name : String) (type : AttributeType)
  | unknownField (field schema : String)
  | tooSmall (name : String) (measure : Measure) (min : Double)
  | tooLarge (name : String) (measure : Measure) (max : Double)
  deriving DecidableEq, Repr

/-- The error in words. -/
def CoercionError.message : CoercionError → String
  | wrongType name (.enum values) => s!"'{name}' must be one of {quotedList values}."
  | wrongType name .integer => s!"'{name}' must be an integer."
  | wrongType name .datetime => s!"'{name}' must be a valid date."
  | wrongType name .uuid => s!"'{name}' must be a valid UUID."
  | wrongType name type => s!"'{name}' must be a {type.name}."
  | unknownField field schema => s!"'{field}' is not an attribute of '{schema}'."
  | tooSmall name measure min =>
    s!"'{name}' {measure.name} must be greater than or equal to {min.plain}."
  | tooLarge name measure max =>
    s!"'{name}' {measure.name} must be less than or equal to {max.plain}."

namespace AttributeType

/-- Reads a value of the type from a query string. -/
def ofText? (type : AttributeType) (raw : String) : Option Json :=
  match type with
  | string | text => some (.str raw)
  | integer => (int? raw).map .int
  | float => (float? raw).map .float
  | boolean => if raw = "true" then some (.bool true) else if raw = "false" then some (.bool false)
    else none
  | datetime => (Timestamp.normalize? raw).map .str
  | uuid => if Text.Uuid.isSpelling raw then some (.str raw) else none
  | enum values => if raw ∈ values then some (.str raw) else none

end AttributeType

namespace Schema

/-- Brings a query string's value for a field to the type of the field. -/
def coerceText (s : Schema) (field raw : String) : Except CoercionError Json :=
  if field = s.idField then
    match s.parseId? raw with
    | some id => .ok id
    | none => .error (.wrongType field s.idType.attributeType)
  else
    match s.attribute? field with
    | none => .error (.unknownField field s.name)
    | some a =>
      match a.type.ofText? raw with
      | some value => .ok value
      | none => .error (.wrongType field a.type)

/-- Brings a primary key from a document to the type of the key. Its text form is accepted too. -/
def coerceId (s : Schema) (value : Json) : Except CoercionError Json :=
  let result :=
    match s.idType, value with
    | .integer, .int i => if i ≤ maxInt then some (.int i) else none
    | _, .str raw => s.parseId? raw
    | _, _ => none
  match result with
  | some id => .ok id
  | none => .error (.wrongType s.idField s.idType.attributeType)

end Schema

namespace Attribute

/-- Checks a measured number against the bounds. -/
def checkRange (a : Attribute) (measured : Double) (measure : Measure) :
    Except CoercionError Unit :=
  match a.min.filter measured.lt with
  | some min => .error (.tooSmall a.name measure min)
  | none =>
    match a.max.filter (·.lt measured) with
    | some max => .error (.tooLarge a.name measure max)
    | none => .ok ()

/-- The signed 64-bit integer that a JSON number denotes. -/
def integer? : Json → Option Int
  | .int i => if i ≤ maxInt then some i else none
  | .float d => d.toInt?.filter fun i => minInt ≤ i && i ≤ maxInt
  | _ => none

/-- The floating point number that a JSON number denotes or is rounded to. -/
def float? : Json → Option Double
  | .int i => some (.ofInt i)
  | .float d => some d
  | _ => none

/-- Brings a JSON value other than `null` to the type of the attribute. -/
def coerce (a : Attribute) (value : Json) : Except CoercionError Json :=
  let mismatch : Except CoercionError Json := .error (.wrongType a.name a.type)
  match a.type, value with
  | .string, .str s | .text, .str s => do
    a.checkRange (.ofInt s.length) .length
    return .str s
  | .integer, value =>
    match integer? value with
    | none => mismatch
    | some i => do
      a.checkRange (.ofInt i) .value
      return .int i
  | .float, value =>
    match float? value with
    | none => mismatch
    | some d => do
      a.checkRange d .value
      return .float d
  | .boolean, .bool b => return .bool b
  | .datetime, .str s =>
    match Timestamp.normalize? s with
    | some normal => return .str normal
    | none => mismatch
  | .uuid, .str s => if Text.Uuid.isSpelling s then return .str s else mismatch
  | .enum values, .str s => if s ∈ values then return .str s else mismatch
  | _, _ => mismatch

end Attribute

end ResourceApi
