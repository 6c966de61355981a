import EntityQuery.Schema.DataType

/-!
# Entities and metadata properties

An entity is a kind of record with a table of its own. Its attributes are the columns that queries
name; their values lie in one JSON column under the attribute's URI. An entity may be the child of
another one.

Expeditions carry metadata: typed properties, stored under their names.
-/

namespace EntityQuery

/-! ## §1 Entities -/

/-- A column of an entity, as queries name it, and the property that holds its values. -/
structure Attribute where
  column : String
  uri : String
  dataType : DataType := .string
  deriving DecidableEq, Repr

/-- A kind of record. -/
structure Entity where
  /-- The name by which queries refer to the entity; also the name of its table. -/
  name : String
  parent : Option String := none
  /-- The column that identifies a row. -/
  uniqueKey : String
  attributes : List Attribute := []
  deriving DecidableEq, Repr

namespace Entity

def attribute? (e : Entity) (column : String) : Option Attribute :=
  e.attributes.find? (·.column == column)

def uri? (e : Entity) (column : String) : Option String :=
  (e.attribute? column).map (·.uri)

def keyUri? (e : Entity) : Option String :=
  e.uri? e.uniqueKey

/-- The entity has a parent. -/
def isChild (e : Entity) : Bool :=
  e.parent.isSome

end Entity

/-! ## §2 Expedition metadata -/

/-- A typed property of expeditions. -/
structure MetadataProperty where
  name : String
  dataType : DataType := .string
  deriving DecidableEq, Repr

end EntityQuery
