import EntityQuery.Column
import EntityQuery.Sorted
import EntityQuery.Sql.Query

/-!
# Join plans

A query reads the table of its root. The entities that it refers to are joined to the root along
the hierarchy: up to the nearest ancestor that the root and the entity share, and from there down
to the entity. What lies between is joined as well, and nothing is joined twice.

Joins upwards and to entities that restrict the query drop rows without partner. An entity that is
only added to the result keeps them.

After the entities come the identifiers of the root and of each added entity, and at the end the
expeditions, if they are asked for. What is joined and in which order depends on the set of
entities that were asked for, not on the order of asking.
-/

namespace EntityQuery

/-! ## §1 What is asked for -/

/-- The entities that a query with a root refers to. -/
structure JoinRequest where
  root : String
  /-- The entities that have to be reached from the root. -/
  required : List String := []
  /-- The required entities whose rows are added to the result. -/
  selected : List String := []
  /-- The table of expeditions is read. -/
  expeditions : Bool := false
  deriving DecidableEq, Repr

namespace JoinRequest

/-- Ask for an entity. The root is always there. -/
def require (r : JoinRequest) (name : String) : JoinRequest :=
  if name = r.root then r else { r with required := name :: r.required }

/-- Ask for an entity and its rows in the result. -/
def select (r : JoinRequest) (name : String) : JoinRequest :=
  if name = r.root then r
  else { r with required := name :: r.required, selected := name :: r.selected }

def requireExpeditions (r : JoinRequest) : JoinRequest :=
  { r with expeditions := true }

end JoinRequest

/-! ## §2 Order -/

/-- Ancestors come before their descendants; entities of one depth are in the order of their
names. -/
def Schema.isBefore (s : Schema) (a b : String) : Bool :=
  s.depth a < s.depth b || (s.depth a == s.depth b && a < b)

/-- Entities in the order in which they are joined, each once. -/
def Schema.inOrder (s : Schema) (names : List String) : List String :=
  sortDistinct s.isBefore names

/-- The entities added to the result, in order. -/
def JoinRequest.selection (r : JoinRequest) (s : Schema) : List String :=
  s.inOrder r.selected

/-! ## §3 Routes -/

/-- One table joined along a parent link. -/
structure Hop where
  type : Sql.JoinType
  /-- The table that is joined: the child or the parent. -/
  table : String
  child : String
  parent : String
  deriving DecidableEq, Repr

/-- The links of a path that goes down, each as a parent and its child. -/
def links (path : List Entity) : List (Entity × Entity) :=
  path.zip path.tail

/-- The path between two entities one of which is an ancestor of the other or the same. -/
def Schema.descent (s : Schema) (ancestor descendant : String) :
    Except QueryError (List (Entity × Entity)) :=
  if ancestor = descendant then .ok []
  else
    match s.path? ancestor descendant with
    | some path => .ok (links path)
    | none => .error (.unrelatedEntities descendant ancestor)

namespace JoinRequest

/-- The hops up from the root, nearest first. -/
def hopsUp (path : List (Entity × Entity)) : List Hop :=
  path.reverse.map fun (parent, child) => ⟨.inner, parent.name, child.name, parent.name⟩

def hopsDown (r : JoinRequest) (path : List (Entity × Entity)) : List Hop :=
  path.map fun (parent, child) =>
    -- rows without a row of a shown entity are kept
    ⟨if child.name ∈ r.selected then .left else .inner, child.name, child.name, parent.name⟩

/-- The hops from the root to an entity. -/
def route (r : JoinRequest) (s : Schema) (name : String) : Except QueryError (List Hop) :=
  match s.commonAncestor? r.root name with
  | none => .error (.unrelatedEntities name r.root)
  | some meeting => do
    let up ← s.descent meeting.name r.root
    let down ← s.descent meeting.name name
    return hopsUp up ++ r.hopsDown down

/-- The hops to several entities, one route after the other. -/
def routes (r : JoinRequest) (s : Schema) : List String → Except QueryError (List Hop)
  | [] => .ok []
  | name :: names => do
    let hops ← r.route s name
    let others ← routes r s names
    return hops ++ others

/-- The hops to tables that are not joined yet, each table once. -/
def newHops : (joined : List String) → List Hop → List Hop
  | _, [] => []
  | joined, hop :: hops =>
    if hop.table ∈ joined then newHops joined hops
    else hop :: newHops (hop.table :: joined) hops

end JoinRequest

/-! ## §4 The plan -/

inductive JoinStep
  | entity (hop : Hop)
  /-- The identifiers of an entity. -/
  | identifiers (entity : String)
  /-- The expeditions of the root's rows. -/
  | expeditions (root : String)
  deriving DecidableEq, Repr

/-- The joins that a request asks for. -/
def JoinRequest.plan (r : JoinRequest) (s : Schema) : Except QueryError (List JoinStep) := do
  let hops ← r.routes s (s.inOrder r.required)
  return (newHops [r.root] hops).map .entity ++
    (r.root :: r.selection s).map .identifiers ++
    (if r.expeditions then [.expeditions r.root] else [])

/-! ## §5 Joins of a statement -/

def identifiersTable : String := "entity_identifiers"

def identifiersName (entity : String) : String :=
  entity ++ "_" ++ identifiersTable

/-- The database schema with the tables of a network. -/
def networkSchema (network : Nat) : String :=
  "network_" ++ toString network

def entityTable (network : Nat) (entity : String) : Sql.TableRef :=
  ⟨some (networkSchema network), entity, some entity⟩

/-- Two fragments with an equals sign between them. -/
def equal (left right : List Sql.Token) : List Sql.Token :=
  left ++ Sql.spaced .eq ++ right

/-- Two conditions that both have to hold. -/
def both (left right : List Sql.Token) : List Sql.Token :=
  left ++ [.space, .keyword .AND, .space] ++ right

namespace JoinStep

/-- The join of a statement that carries out a step. -/
def toJoin (network : Nat) : JoinStep → Sql.Join
  | entity hop =>
    { type := hop.type
      table := entityTable network hop.table
      on := both
        (equal (Sql.column hop.child "parent_identifier")
          (Sql.column hop.parent "local_identifier"))
        (equal (Sql.column hop.child "expedition_id") (Sql.column hop.parent "expedition_id")) }
  | identifiers owner =>
    { type := .left
      table := ⟨none, identifiersTable, some (identifiersName owner)⟩
      on := both
        (equal (Sql.column (identifiersName owner) "expedition_id")
          (Sql.column owner "expedition_id"))
        (equal (Sql.column (identifiersName owner) "concept_alias") [.literal owner]) }
  | expeditions root =>
    { type := .inner
      table := ⟨none, expeditionsTable, none⟩
      on := equal (Sql.column expeditionsTable "id") (Sql.column root "expedition_id") }

end JoinStep

/-- The joins of a statement that a request asks for. -/
def JoinRequest.joins (r : JoinRequest) (s : Schema) (network : Nat) :
    Except QueryError (List Sql.Join) :=
  (r.plan s).map fun steps => steps.map (JoinStep.toJoin network)

/-- The text of joins, one after the other. -/
def joinsText (joins : List Sql.Join) : String :=
  Sql.render (Sql.joinedBySpace (joins.map Sql.Join.tokens))

/-- The text of the joins that a request asks for. -/
def JoinRequest.text (r : JoinRequest) (s : Schema) (network : Nat) : Except QueryError String :=
  (r.joins s network).map joinsText

end EntityQuery
