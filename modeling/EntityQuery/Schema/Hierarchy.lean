import EntityQuery.Schema.Basic

/-!
# The hierarchy of entities

The entities of a schema form a forest: each has at most one parent, and following parents comes to
an end. Ancestors and paths are found by climbing from child to parent; whether one entity lies
below another is found by descending from parent to children.

Fuel bounds how far a walk goes. The number of entities is always enough, since a walk meets none
of them twice.
-/

namespace EntityQuery.Schema

/-! ## §1 Climbing -/

def parent? (s : Schema) (e : Entity) : Option Entity :=
  e.parent.bind s.entity?

/-- The ancestors of an entity, nearest first. -/
def climb (s : Schema) : Nat → Entity → List Entity
  | 0, _ => []
  | fuel + 1, e =>
    match s.parent? e with
    | some parent => parent :: s.climb fuel parent
    | none => []

/-- The ancestors of the entity with a name, nearest first. -/
def ancestors (s : Schema) (name : String) : List Entity :=
  match s.entity? name with
  | some e => s.climb s.entities.length e
  | none => []

/-- The entity with a name, followed by its ancestors. -/
def lineage (s : Schema) (name : String) : List Entity :=
  match s.entity? name with
  | some e => e :: s.ancestors name
  | none => []

/-- How many ancestors an entity has. -/
def depth (s : Schema) (name : String) : Nat :=
  (s.ancestors name).length

/-! ## §2 Descending -/

/-- The children of an entity, in the order of declaration. -/
def children (s : Schema) (name : String) : List Entity :=
  s.entities.filter (·.parent == some name)

/-- Going down from a name meets another one. -/
def reaches (s : Schema) (target : String) : Nat → String → Bool
  | 0, name => name == target
  | fuel + 1, name =>
    name == target || (s.children name).any fun child => s.reaches target fuel child.name

/-- The first entity lies strictly below the second. -/
def isDescendant (s : Schema) (name ancestor : String) : Bool :=
  name != ancestor && (s.entity? name).isSome && (s.entity? ancestor).isSome &&
    s.reaches name s.entities.length ancestor

/-! ## §3 Two entities -/

/-- The nearest entity that is the one or above it and also the other or above it. -/
def commonAncestor? (s : Schema) (a b : String) : Option Entity :=
  (s.lineage b).find? fun e => (s.lineage a).any (·.name == e.name)

/-- Two different entities of one tree. -/
def areRelated (s : Schema) (a b : String) : Bool :=
  a != b && (s.commonAncestor? a b).isSome

/-- The entities from an ancestor down to an entity, both included. -/
def pathFrom? (s : Schema) (top : String) : Nat → Entity → Option (List Entity)
  | 0, _ => none
  | fuel + 1, e =>
    if e.name == top then some [e]
    else
      match s.parent? e with
      | some parent => (s.pathFrom? top fuel parent).map (· ++ [e])
      | none => none

/-- The path from an ancestor down to a descendant, both included. There is none from an entity to
itself. -/
def path? (s : Schema) (ancestor descendant : String) : Option (List Entity) :=
  match s.entity? descendant with
  | some e => if ancestor == descendant then none else s.pathFrom? ancestor s.entities.length e
  | none => none

end EntityQuery.Schema
