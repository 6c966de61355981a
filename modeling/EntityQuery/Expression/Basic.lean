import EntityQuery.Expression.Operator
import EntityQuery.Sorted

/-!
# Query expressions

The tree of a query, as a parser of queries or a JSON document produces it. The leaves restrict the
rows; `select` adds related entities to the result; `all` asks for every row and `empty` is a query
that says nothing.

The nodes of a tree are listed in preorder. From them are collected the expedition codes, project
identifiers and selected entities that a tree mentions.
-/

namespace EntityQuery

/-! ## §1 The tree -/

/-- A query expression. -/
inductive Expression
  /-- A column compared with a literal. -/
  | comparison (column : String) (operator : ComparisonOperator) (term : String)
  /-- A column between bounds, which a text specifies. -/
  | range (column spec : String)
  /-- A column that matches a pattern, in whatever case. -/
  | like (column term : String)
  /-- Words that occur in a column, or anywhere in a row of the root. -/
  | search (column : Option String) (term : String)
  /-- Columns that have a value. -/
  | present (columns : List String)
  | not (inner : Expression)
  | logical (connective : Connective) (left right : Expression)
  | group (inner : Expression)
  /-- The rows of some expeditions. -/
  | expedition (codes : List String)
  /-- The rows of some projects. -/
  | project (ids : List Int64)
  /-- Entities to be added to the result. -/
  | select (entities : List String)
  /-- Entities to be added to the result of an expression. -/
  | selectWith (entities : List String) (inner : Expression)
  | all
  | empty
  deriving DecidableEq, Repr

namespace Expression

/-! ## §2 Nodes -/

/-- The nodes directly below a node, left to right. -/
def children : Expression → List Expression
  | .not inner | .group inner | .selectWith _ inner => [inner]
  | .logical _ left right => [left, right]
  | _ => []

/-- All nodes of a tree in preorder. -/
def nodes : Expression → List Expression
  | e@(.not inner) => e :: inner.nodes
  | e@(.group inner) => e :: inner.nodes
  | e@(.selectWith _ inner) => e :: inner.nodes
  | e@(.logical _ left right) => e :: (left.nodes ++ right.nodes)
  | e => [e]

/-- Each node comes before what lies below it, child after child. -/
theorem nodes_eq (e : Expression) : e.nodes = e :: e.children.flatMap nodes := by
  cases e <;> simp [nodes, children]

/-! ## §3 What a tree mentions -/

/-- The expedition codes of one node. -/
def ownExpeditionCodes : Expression → List String
  | .expedition codes => codes
  | _ => []

/-- The project identifiers of one node. -/
def ownProjectIds : Expression → List Int64
  | .project ids => ids
  | _ => []

/-- The entities that one node selects. -/
def ownSelection : Expression → List String
  | .select entities | .selectWith entities _ => entities
  | _ => []

/-- The expedition codes of a tree in ascending order, each once. -/
def expeditionCodes (e : Expression) : List String :=
  sortTexts (e.nodes.flatMap ownExpeditionCodes)

/-- The project identifiers of a tree in ascending order, each once. -/
def projectIds (e : Expression) : List Int64 :=
  sortDistinct (fun i j => decide (i < j)) (e.nodes.flatMap ownProjectIds)

/-- The entities that a tree selects in ascending order, each once. -/
def selection (e : Expression) : List String :=
  sortTexts (e.nodes.flatMap ownSelection)

end Expression

end EntityQuery
