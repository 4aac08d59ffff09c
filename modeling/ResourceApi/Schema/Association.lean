import ResourceApi.Schema.Basic

/-!
# Associations

An association is a relationship with everything it refers to found: both schemas, and the keys
and tables that store it. Key names that the declaration leaves out follow from the names of
the relationship and of the schemas.
-/

namespace ResourceApi

/-- Whether a relationship leads to one row or to many. -/
inductive Cardinality where
  | one
  | many
  deriving DecidableEq, Repr

/-- The table that stores a many-to-many association. -/
structure JoinTable where
  /-- The name of the join resource. -/
  name : String
  /-- The name of the table. -/
  table : String
  /-- The attribute that refers to the source row. -/
  sourceKey : String
  /-- The attribute that refers to the target row. -/
  targetKey : String
  deriving DecidableEq, Repr

/-- How an association is stored. -/
inductive AssociationKind where
  | belongsTo (sourceKey : String)
  | hasOne (targetKey : String)
  | hasMany (targetKey : String)
  | hasManyThrough (join : JoinTable)
  deriving DecidableEq, Repr

namespace AssociationKind

/-- The number of rows an association of this kind leads to. -/
def cardinality : AssociationKind → Cardinality
  | belongsTo _ | hasOne _ => .one
  | hasMany _ | hasManyThrough _ => .many

/-- The name of the kind. -/
def name : AssociationKind → String
  | belongsTo _ => "belongsTo"
  | hasOne _ => "hasOne"
  | hasMany _ => "hasMany"
  | hasManyThrough _ => "hasManyThrough"

end AssociationKind

/-- A relationship with its schemas and keys. -/
structure Association where
  /-- The name of the relationship. -/
  name : String
  source : Schema
  target : Schema
  kind : AssociationKind
  deriving DecidableEq, Repr

namespace Association

/-- The number of rows the association leads to. -/
def cardinality (a : Association) : Cardinality := a.kind.cardinality

/-- The join table, where there is one. -/
def join? (a : Association) : Option JoinTable :=
  match a.kind with
  | .hasManyThrough join => some join
  | _ => none

/-- The schema whose rows carry the key, the key, and the schema it refers to. A join table
belongs to no schema. -/
def keyHolder? (a : Association) : Option (Schema × String × Schema) :=
  match a.kind with
  | .belongsTo key => some (a.source, key, a.target)
  | .hasOne key | .hasMany key => some (a.target, key, a.source)
  | .hasManyThrough _ => none

end Association

namespace AssociationKind

/-- The key that refers to a resource or relationship of this name. -/
def keyFor (name : String) : String := Text.Words.lowerCamel (name ++ "_id")

/-- The join table of a relationship. A join of a schema with itself names its far side after the
relationship. -/
def joinTable (source target : Schema) (name : String) (join sourceKey targetKey : Option String) :
    JoinTable :=
  let joinName := join.getD (source.name ++ Text.Words.upperCamel name)
  let table :=
    match source.space with
    | some space => Text.Words.snake (space ++ "_" ++ joinName)
    | none => Text.Words.snake joinName
  let sourceKey := sourceKey.getD (keyFor source.name)
  let derived := if keyFor target.name = sourceKey then keyFor name else keyFor target.name
  ⟨joinName, table, sourceKey, targetKey.getD derived⟩

/-- The stored form of a relationship. -/
def resolve (source target : Schema) (name : String) : Relationship → AssociationKind
  | .belongsTo _ key => belongsTo (key.getD (keyFor name))
  | .hasOne _ key => hasOne (key.getD (keyFor source.name))
  | .hasMany _ key => hasMany (key.getD (keyFor source.name))
  | .hasManyThrough _ join sourceKey targetKey =>
    hasManyThrough (joinTable source target name join sourceKey targetKey)

end AssociationKind

end ResourceApi
