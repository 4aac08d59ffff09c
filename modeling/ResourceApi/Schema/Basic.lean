import ResourceApi.Json.Basic
import ResourceApi.Text.Numeral
import ResourceApi.Text.Uuid
import ResourceApi.Text.Words

/-!
# Resource schemas

A `Schema` names a resource, its primary key, its attributes and its relationships, both in the
order of their declaration. The names under which a resource is stored and served are derived
from its name, its namespace and its plural.
-/

namespace ResourceApi

/-- The type of an attribute. -/
inductive AttributeType where
  | string
  | text
  | integer
  | float
  | boolean
  /-- An instant, stored in its normal form. -/
  | datetime
  | uuid
  /-- One of the listed texts. -/
  | enum (values : List String)
  deriving DecidableEq, Repr

/-- The name of an attribute type. -/
def AttributeType.name : AttributeType → String
  | string => "string"
  | text => "text"
  | integer => "integer"
  | float => "float"
  | boolean => "boolean"
  | datetime => "datetime"
  | uuid => "uuid"
  | enum _ => "enum"

/-- An attribute of a schema. The bounds are on the value of a number and on the length of a
text. -/
structure Attribute where
  name : String
  type : AttributeType
  nullable : Bool := true
  unique : Bool := false
  default : Option Json := none
  min : Option Double := none
  max : Option Double := none
  deriving DecidableEq, Repr

/-- The type of a primary key. -/
inductive KeyType where
  /-- A UUID, given by the client or drawn by the engine. -/
  | uuid
  /-- An integer that the store assigns. -/
  | integer
  deriving DecidableEq, Repr

/-- The attribute type whose values a key of this type takes. -/
def KeyType.attributeType : KeyType → AttributeType
  | uuid => .uuid
  | integer => .integer

/-- A declared relationship. Key names that are left out are derived when the registry is
assembled. -/
inductive Relationship where
  /-- The source row holds the key of the target. -/
  | belongsTo (target : String) (key : Option String)
  /-- One target row holds the key of the source. -/
  | hasOne (target : String) (key : Option String)
  /-- Many target rows hold the key of the source. -/
  | hasMany (target : String) (key : Option String)
  /-- Rows are linked through a join table. -/
  | hasManyThrough (target : String) (join sourceKey targetKey : Option String)
  deriving DecidableEq, Repr

namespace Relationship

/-- The full name of the target schema. -/
def target : Relationship → String
  | belongsTo t _ | hasOne t _ | hasMany t _ | hasManyThrough t _ _ _ => t

/-- Sets the key: the one in the source row, in the target row, or the join table's key of the
source. -/
def withForeignKey (key : String) : Relationship → Relationship
  | belongsTo t _ => belongsTo t (some key)
  | hasOne t _ => hasOne t (some key)
  | hasMany t _ => hasMany t (some key)
  | hasManyThrough t join _ targetKey => hasManyThrough t join (some key) targetKey

/-- Names the join table and both of its keys. Other relationships have none. -/
def through (join sourceKey targetKey : String) : Relationship → Relationship
  | hasManyThrough t _ _ _ => hasManyThrough t (some join) (some sourceKey) (some targetKey)
  | r => r

end Relationship

/-- A resource schema. -/
structure Schema where
  name : String
  /-- The namespace. -/
  space : Option String := none
  plural : Option String := none
  idField : String := "id"
  idType : KeyType := .uuid
  attributes : List Attribute := []
  relationships : List (String × Relationship) := []
  deriving DecidableEq, Repr

/-- The stored name of an attribute. -/
def columnName (field : String) : String := Text.Words.snake field

namespace Schema

/-- The name under which a schema is registered. -/
def fullName (s : Schema) : String :=
  match s.space with
  | some space => space ++ "_" ++ s.name
  | none => s.name

/-- The name of the table that stores the resource. -/
def tableName (s : Schema) : String := Text.Words.snake s.fullName

/-- The path under which the resource is served. -/
def endpoint (s : Schema) : String :=
  let plural := Text.Words.kebab (s.plural.getD (s.name ++ "s"))
  match s.space with
  | some space => Text.Words.kebab space ++ "/" ++ plural
  | none => plural

/-- The stored name of the primary key. -/
def idColumn (s : Schema) : String := columnName s.idField

/-- The attribute of a name. -/
def attribute? (s : Schema) (name : String) : Option Attribute :=
  s.attributes.find? (·.name = name)

/-- Whether a name is selectable: the primary key or a declared attribute. -/
def hasField (s : Schema) (name : String) : Bool :=
  name = s.idField || (s.attribute? name).isSome

/-- The declared attribute names. -/
def attributeNames (s : Schema) : List String := s.attributes.map (·.name)

/-- The declared relationship names. -/
def relationshipNames (s : Schema) : List String := s.relationships.map (·.1)

/-- The primary key, then every declared attribute. -/
def allFields (s : Schema) : List String := s.idField :: s.attributeNames

/-- Reads an identifier from a path or a query string. A UUID keeps its spelling. -/
def parseId? (s : Schema) (raw : String) : Option Json :=
  match s.idType with
  | .uuid => if Text.Uuid.isSpelling raw then some (.str raw) else none
  | .integer => (Text.Numeral.int? raw).map .int

/-- What is said of a text that is no identifier of the schema. -/
def invalidId (s : Schema) (raw : String) : String :=
  s!"'{raw}' is not a valid {s.name} identifier."

end Schema

end ResourceApi
