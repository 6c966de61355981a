import EntityQuery.Schema.Violation
import EntityQuery.Schema.Cycle

/-!
# Schemas

A schema is an ordered list of entities that breaks no rule, together with the metadata properties
of expeditions. That no rule is broken is part of the type: every schema was checked when it was
made by `Schema.ofEntities`.
-/

namespace EntityQuery

/-! ## §1 Making a schema -/

/-- The first violation in a list of entities: of single entities and distinct names, of declared
parents, of the hierarchy. -/
def violation? (es : List Entity) : Option Violation :=
  match firstEntityViolation? [] es with
  | some violation => some violation
  | none =>
    match parentViolation? (es.map (·.name)) es with
    | some violation => some violation
    | none => (cycle? es).map .cyclicHierarchy

/-- The entities of a project and the metadata of its expeditions. -/
structure Schema where
  /-- The entities in the order of declaration. -/
  entities : List Entity
  /-- The metadata properties in the order of declaration. -/
  metadata : List MetadataProperty
  /-- The entities break no rule. -/
  valid : violation? entities = none

namespace Schema

/-- The schema of a list of entities, or the rule that they break. -/
def ofEntities (entities : List Entity) (metadata : List MetadataProperty) :
    Except Violation Schema :=
  match h : violation? entities with
  | none => .ok ⟨entities, metadata, h⟩
  | some violation => .error violation

/-! ## §2 Looking things up -/

def entity? (s : Schema) (name : String) : Option Entity :=
  s.entities.find? (·.name == name)

/-- The metadata property with a name, in whatever case it is written. -/
def metadataProperty? (s : Schema) (name : String) : Option MetadataProperty :=
  s.metadata.find? fun p => Text.sameIgnoringCase p.name name

/-- The entities that have an attribute for a column, in the order of declaration. -/
def withColumn (s : Schema) (column : String) : List Entity :=
  s.entities.filter fun e => (e.attribute? column).isSome

end Schema

end EntityQuery
