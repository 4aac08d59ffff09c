import ResourceApi.Schema.Association

/-!
# Registries

A registry is a list of schemas that fit together, with every relationship resolved into an
association and with the foreign keys that the associations need beyond the declared
attributes. `Registry.assemble` refuses schemas that do not fit and reports the first fault it
meets: repeated schema names first, then names within a schema, then relationships.
-/

namespace ResourceApi

/-- Why schemas do not form a registry. -/
inductive RegistryError where
  | duplicateSchema (schema : String)
  | duplicateField (schema name : String)
  | nameClash (schema name : String)
  | unknownTarget (schema relationship target : String)
  | joinKeyClash (schema relationship key : String)
  deriving DecidableEq, Repr

/-- The error in words. -/
def RegistryError.message : RegistryError → String
  | duplicateSchema schema => s!"Schema '{schema}' is registered more than once"
  | duplicateField schema name => s!"Schema '{schema}' declares '{name}' more than once"
  | nameClash schema name =>
    s!"Schema '{schema}' uses '{name}' as both an attribute and a relationship"
  | unknownTarget schema relationship target =>
    s!"Relationship '{schema}.{relationship}' targets unknown schema '{target}'"
  | joinKeyClash schema relationship key =>
    s!"Relationship '{schema}.{relationship}' uses '{key}' as both join table keys"

/-- A key column that a table carries for some association. -/
structure ForeignKey where
  /-- The full name of the schema whose rows carry the key. -/
  owner : String
  field : String
  /-- The schema whose primary key it holds. -/
  references : Schema
  deriving DecidableEq, Repr

/-- Schemas that fit together. -/
structure Registry where
  /-- The schemas, in order of registration. -/
  schemas : List Schema
  /-- The associations of all schemas, in order of declaration. -/
  associations : List Association
  /-- The key columns that no attribute declares. -/
  foreignKeys : List ForeignKey
  deriving DecidableEq, Repr

namespace Registry

/-! ## Looking things up -/

/-- The schema of a full name. -/
def schema? (r : Registry) (fullName : String) : Option Schema :=
  r.schemas.find? (·.fullName = fullName)

/-- The associations of a schema, in order of declaration. -/
def associationsOf (r : Registry) (schema : Schema) : List Association :=
  r.associations.filter (·.source.fullName = schema.fullName)

/-- The association of a schema for a relationship name. -/
def association? (r : Registry) (schema : Schema) (name : String) : Option Association :=
  (r.associationsOf schema).find? (·.name = name)

/-- The key columns that a schema's table carries beyond the declared attributes. -/
def foreignKeysOf (r : Registry) (schema : Schema) : List ForeignKey :=
  r.foreignKeys.filter (·.owner = schema.fullName)

/-- The schema served under an endpoint. -/
def byEndpoint? (r : Registry) (endpoint : String) : Option Schema :=
  r.schemas.find? (·.endpoint = endpoint)

/-- The first association of every join table. -/
def joinAssociations (r : Registry) : List (Association × JoinTable) :=
  (r.schemas.flatMap r.associationsOf).foldl (fun found a =>
    match a.join? with
    | some join => if found.any (·.2.table = join.table) then found else found ++ [(a, join)]
    | none => found) []

/-! ## Assembly -/

/-- The first element that occurs earlier in the list. -/
def firstRepeated (seen : List String) : List String → Option String
  | [] => none
  | name :: rest => if name ∈ seen then some name else firstRepeated (name :: seen) rest

/-- Refuses a relationship name that is a field or was declared before. -/
def checkRelationshipNames (schema : Schema) (seen : List String) :
    List String → Except RegistryError Unit
  | [] => .ok ()
  | name :: rest =>
    if schema.hasField name then .error (.nameClash schema.fullName name)
    else if name ∈ seen then .error (.duplicateField schema.fullName name)
    else checkRelationshipNames schema (name :: seen) rest

/-- Refuses a schema that uses a name twice. -/
def checkNames (schema : Schema) : Except RegistryError Unit :=
  match firstRepeated [] schema.allFields with
  | some name => .error (.duplicateField schema.fullName name)
  | none => checkRelationshipNames schema [] schema.relationshipNames

/-- The association of one declared relationship. -/
def resolve (schemas : List Schema) (source : Schema) (name : String)
    (relationship : Relationship) : Except RegistryError Association :=
  match schemas.find? (·.fullName = relationship.target) with
  | none => .error (.unknownTarget source.fullName name relationship.target)
  | some target =>
    let kind := AssociationKind.resolve source target name relationship
    match kind with
    | .hasManyThrough join =>
      if join.sourceKey = join.targetKey then
        .error (.joinKeyClash source.fullName name join.sourceKey)
      else .ok ⟨name, source, target, kind⟩
    | _ => .ok ⟨name, source, target, kind⟩

/-- Adds the key column an association needs. A declared field already provides it, and the first
association to name a key decides what it refers to. -/
def addForeignKey (keys : List ForeignKey) (a : Association) : List ForeignKey :=
  match a.keyHolder? with
  | none => keys
  | some (owner, field, references) =>
    if owner.hasField field
        || keys.any (fun k => k.owner = owner.fullName && k.field = field) then keys
    else keys ++ [⟨owner.fullName, field, references⟩]

/-- Puts schemas together. -/
def assemble (schemas : List Schema) : Except RegistryError Registry := do
  if let some name := firstRepeated [] (schemas.map (·.fullName)) then
    throw (.duplicateSchema name)
  schemas.forM checkNames
  let associations ← schemas.flatMapM fun source =>
    source.relationships.mapM fun (name, relationship) => resolve schemas source name relationship
  return ⟨schemas, associations, associations.foldl addForeignKey []⟩

end Registry

end ResourceApi
