import EntityQuery.Schema.Entity

/-!
# Cycles of parents

Two sweeps decide whether following parents always comes to an end.

The first sweep goes down: from each entity not seen before it visits the children first and then
leaves the entity, so that an entity is left after all that lies below it. The second sweep walks
through the entities, the last left first. If no entity is its own ancestor, each parent was left
after its children and therefore comes before them; so a parent that has not come yet lies on a
cycle.
-/

namespace EntityQuery

/-! ## §1 Parents and children -/

def parentName? (es : List Entity) (name : String) : Option String :=
  (es.find? (·.name == name)).bind (·.parent)

/-- The names of an entity's children, in the order of declaration. -/
def childNames (es : List Entity) (name : String) : List String :=
  (es.filter (·.parent == some name)).map (·.name)

/-! ## §2 The downward sweep -/

/-- What a sweep has done so far. -/
structure Sweep where
  /-- The entities that were entered. -/
  entered : List String := []
  /-- The entities that were left, the last one first. -/
  left : List String := []

/-- Visit an entity and what lies below it. The fuel bounds the depth of the descent, which cannot
exceed the number of entities, since none is entered twice. -/
def Sweep.visit (es : List Entity) : Nat → Sweep → String → Sweep
  | 0, sweep, _ => sweep
  | fuel + 1, sweep, name =>
    if name ∈ sweep.entered then sweep
    else
      let below := (childNames es name).foldl (visit es fuel)
        { sweep with entered := name :: sweep.entered }
      { below with left := name :: below.left }

/-- All entities, the last left first. -/
def sweepOrder (es : List Entity) : List String :=
  ((es.map (·.name)).foldl (Sweep.visit es es.length) {}).left

/-! ## §3 The second sweep -/

/-- The first parent that does not come before its child. -/
def lateParent? (es : List Entity) : (earlier : List String) → List String → Option String
  | _, [] => none
  | earlier, name :: rest =>
    match parentName? es name with
    | some parent =>
      if parent ∈ earlier then lateParent? es (name :: earlier) rest else some parent
    | none => lateParent? es (name :: earlier) rest

/-- An entity that is its own ancestor, if there is one. -/
def cycle? (es : List Entity) : Option String :=
  lateParent? es [] (sweepOrder es)

end EntityQuery
