import EntityQuery.Schema.Hierarchy

/-!
# Listing the entities

The entities of a schema are listed as an outline: each entity is followed by its children, in the
order of declaration and one level deeper. The metadata of expeditions comes after a blank line.
-/

namespace EntityQuery

/-! ## §1 The outline -/

/-- A line of an outline: an entity and how many ancestors it has. -/
structure OutlineEntry where
  depth : Nat
  entity : Entity
  deriving DecidableEq, Repr

namespace Schema

/-- An entity and those below it. The number of entities is enough fuel, since no entity lies
below itself. -/
def subtree (s : Schema) : Nat → Nat → Entity → List OutlineEntry
  | 0, _, _ => []
  | fuel + 1, depth, e =>
    ⟨depth, e⟩ :: (s.children e.name).flatMap (s.subtree fuel (depth + 1))

/-- All entities, each under its parent. -/
def outline (s : Schema) : List OutlineEntry :=
  (s.entities.filter (!·.isChild)).flatMap (s.subtree s.entities.length 0)

end Schema

/-! ## §2 The text -/

/-- The line of an entity, indented by two blanks for itself and for each ancestor. -/
def OutlineEntry.line (entry : OutlineEntry) : String :=
  String.ofList (List.replicate (2 * (entry.depth + 1)) ' ') ++ "- " ++ entry.entity.name ++
    " (key: " ++ entry.entity.uniqueKey ++ ", " ++ toString entry.entity.attributes.length ++
    " attributes)"

def MetadataProperty.line (p : MetadataProperty) : String :=
  "  - " ++ p.name ++ " (" ++ p.dataType.title ++ ")"

namespace Schema

def listingLines (s : Schema) : List String :=
  "Entities:" :: s.outline.map OutlineEntry.line ++
    if s.metadata.isEmpty then []
    else "" :: "Expedition metadata:" :: s.metadata.map MetadataProperty.line

/-- The listing: every line ends with a line break. -/
def listing (s : Schema) : String :=
  String.join (s.listingLines.map (· ++ "\n"))

end Schema

end EntityQuery
