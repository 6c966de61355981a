import EntityQuery.Schema.Basic
import EntityQuery.Json.Reader
import EntityQuery.Json.Printer
import EntityQuery.Json.Record

/-!
# Schema documents

A schema is read from a JSON document and written as one. The document has the entities and,
optionally, the metadata properties of expeditions; every record may be written as an object or as
an array of its fields.

Reading fails if the document is malformed, and then if the entities break a rule. Where a schema is
one value among others that are read, what follows it is looked at last.
-/

namespace EntityQuery

/-- Why a document is not a schema. -/
inductive SchemaError
  | malformed
  | invalid (violation : Violation)
  deriving DecidableEq, Repr

def SchemaError.message : SchemaError → String
  | .malformed => "Failed to parse project config:"
  | .invalid violation => violation.message

/-! ## §1 Reading -/

def DataType.ofJson? (json : Json) : Option DataType :=
  (json.choice? Json.isNull).bind ofName?

def Attribute.ofJson? (json : Json) : Option Attribute := do
  match ← json.record? ["column", "uri", "dataType"] with
  | [some column, some uri, dataType] =>
    return ⟨← column.asText?, ← uri.asText?, ← Json.withDefault .string DataType.ofJson? dataType⟩
  | _ => none

def Attribute.listOfJson? (json : Json) : Option (List Attribute) :=
  json.asArray?.bind fun items => items.mapM ofJson?

def Entity.ofJson? (json : Json) : Option Entity := do
  match ← json.record? ["conceptAlias", "parentEntity", "uniqueKey", "attributes"] with
  | [some name, parent, some uniqueKey, attributes] =>
    return ⟨← name.asText?, ← Json.withDefault none (Json.optional Json.asText?) parent,
      ← uniqueKey.asText?, ← Json.withDefault [] Attribute.listOfJson? attributes⟩
  | _ => none

def MetadataProperty.ofJson? (json : Json) : Option MetadataProperty := do
  match ← json.record? ["name", "dataType"] with
  | [some name, dataType] =>
    return ⟨← name.asText?, ← Json.withDefault .string DataType.ofJson? dataType⟩
  | _ => none

def MetadataProperty.listOfJson? (json : Json) : Option (List MetadataProperty) :=
  json.asArray?.bind fun items => items.mapM ofJson?

namespace Schema

/-- Read the entities and the metadata properties of a schema, without checking them. -/
def partsOfJson? (json : Json) : Option (List Entity × List MetadataProperty) := do
  match ← json.record? ["entities", "expeditionMetadataProperties"] with
  | [some entities, metadata] =>
    return (← (← entities.asArray?).mapM Entity.ofJson?,
      ← Json.withDefault [] MetadataProperty.listOfJson? metadata)
  | _ => none

def parse (document : String) : Except SchemaError Schema :=
  match (Json.parse document).bind partsOfJson? with
  | none => .error .malformed
  | some (entities, metadata) => (ofEntities entities metadata).mapError .invalid

/-- Read a schema as a reader of values does: it is made as soon as its value was read, and only
then the document has to end. -/
def deserialize (document : String) : Except SchemaError Schema := do
  let cs := document.toList
  match Json.readValue (cs.length + 1) cs with
  | none => .error .malformed
  | some (json, rest) =>
    match partsOfJson? json with
    | none => .error .malformed
    | some (entities, metadata) =>
      let s ← (ofEntities entities metadata).mapError .invalid
      if (Json.skipSeparators rest).isEmpty then return s else .error .malformed

end Schema

/-! ## §2 Writing -/

def Attribute.toJson (a : Attribute) : Json :=
  .object [("column", .text a.column), ("uri", .text a.uri), ("dataType", .text a.dataType.name)]

def Entity.toJson (e : Entity) : Json :=
  .object [("conceptAlias", .text e.name), ("parentEntity", e.parent.elim .null .text),
    ("uniqueKey", .text e.uniqueKey), ("attributes", .array (e.attributes.map Attribute.toJson))]

def MetadataProperty.toJson (p : MetadataProperty) : Json :=
  .object [("name", .text p.name), ("dataType", .text p.dataType.name)]

def Schema.partsToJson (entities : List Entity) (metadata : List MetadataProperty) : Json :=
  .object [("entities", .array (entities.map Entity.toJson)),
    ("expeditionMetadataProperties", .array (metadata.map MetadataProperty.toJson))]

def Schema.serialize (s : Schema) : String :=
  (partsToJson s.entities s.metadata).compact

end EntityQuery
