import ResourceApi.Json.Writer
import ResourceApi.Schema.Registry
import ResourceApi.Text.Utf8

/-!
# Stored values

A table stores integers, floating point numbers, texts and bytes. `SqlValue.ofJson` and
`SqlValue.toJson` convert between stored values and the values of rows; the type of a column
decides how a stored value reads back. Arrays and objects are stored as their JSON text.
-/

namespace ResourceApi

/-- A stored value. -/
inductive SqlValue where
  | null
  | integer (i : Int)
  | real (d : Double)
  | text (s : String)
  | blob (bytes : List UInt8)
  deriving DecidableEq, Repr, Inhabited

/-- How a stored column reads back. -/
inductive ColumnType where
  | text
  | integer
  | real
  /-- Stored as zero or one. -/
  | boolean
  deriving DecidableEq, Repr

namespace ColumnType

/-- The name of a column type. -/
def name : ColumnType → String
  | text => "text"
  | integer => "integer"
  | real => "real"
  | boolean => "boolean"

/-- The column type of an attribute. -/
def ofAttribute : AttributeType → ColumnType
  | .integer => integer
  | .float => real
  | .boolean => boolean
  | .string | .text | .datetime | .uuid | .enum _ => text

/-- The column type of a primary key. -/
def ofKey : KeyType → ColumnType
  | .uuid => text
  | .integer => integer

end ColumnType

namespace SqlValue

/-- The stored form of a value. Integers past the signed range are rounded. -/
def ofJson : Json → SqlValue
  | .null => null
  | .bool b => integer (if b then 1 else 0)
  | .int i => if i ≤ Text.Numeral.maxInt then integer i else real (.ofInt i)
  | .float d => real d
  | .str s => text s
  | json => text json.text

/-- A floating point number as a value of a row; `null` for what is no number. -/
def ofDouble (d : Double) : Json := if d.isFinite then .float d else .null

/-- A stored value as a value of a row. -/
def toJson (type : ColumnType) : SqlValue → Json
  | null => .null
  | integer i =>
    match type with
    | .boolean => .bool (i != 0)
    | .real => .float (.ofInt i)
    | _ => .int i
  | real d => ofDouble d
  | text s => .str s
  | blob bytes => .str (String.ofList (Text.Utf8.decodeLossy bytes))

/-- A stored value as it goes into JSON text, where column types are forgotten. -/
def untyped : SqlValue → Json
  | real d => .float d
  | v => v.toJson .text

/-- Restores the type of a column in a value that came through JSON text. -/
def retype (type : ColumnType) (value : Json) : Json :=
  match type, value with
  | .boolean, .int i => if i ≤ Text.Numeral.maxInt then .bool (i != 0) else .int i
  | _, value => value

end SqlValue

/-- A stored column of a schema's table. -/
structure Column where
  /-- The name under which rows hold the value. -/
  field : String
  /-- The name of the column in the table. -/
  column : String
  type : ColumnType
  deriving DecidableEq, Repr

namespace Registry

/-- The columns of a schema's table: the primary key, the declared attributes, the keys that
associations need. -/
def columns (r : Registry) (schema : Schema) : List Column :=
  ⟨schema.idField, schema.idColumn, .ofKey schema.idType⟩
    :: schema.attributes.map (fun a => ⟨a.name, columnName a.name, .ofAttribute a.type⟩)
    ++ (r.foreignKeysOf schema).map fun k =>
      ⟨k.field, columnName k.field, .ofKey k.references.idType⟩

/-- The column of a field. -/
def column? (r : Registry) (schema : Schema) (field : String) : Option Column :=
  (r.columns schema).find? (·.field = field)

/-- The column of a stored name. -/
def columnNamed? (r : Registry) (schema : Schema) (column : String) : Option Column :=
  (r.columns schema).find? (·.column = column)

end Registry

end ResourceApi
