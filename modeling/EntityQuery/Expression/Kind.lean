import EntityQuery.Expression.Basic

/-!
# Kinds of expressions

Documents say of each node what kind it is. A kind has a name and a number, its place in the list
of all kinds.
-/

namespace EntityQuery

/-- What a node of an expression is. -/
inductive ExpressionKind
  | comparison
  | range
  | like
  | search
  | present
  | not
  | logical
  | group
  | expedition
  | project
  | select
  | all
  | empty
  deriving DecidableEq, Repr

namespace ExpressionKind

/-- The kinds in the order of their numbers. -/
def list : List ExpressionKind :=
  [.comparison, .range, .like, .search, .present, .not, .logical, .group, .expedition, .project,
   .select, .all, .empty]

def name : ExpressionKind → String
  | .comparison => "comparison"
  | .range => "range"
  | .like => "like"
  | .search => "full_text_search"
  | .present => "exists"
  | .not => "not"
  | .logical => "logical"
  | .group => "group"
  | .expedition => "expedition"
  | .project => "project"
  | .select => "select"
  | .all => "all"
  | .empty => "empty"

def ofName? (s : String) : Option ExpressionKind :=
  list.find? fun k => k.name = s

def ofNumber? (n : Int) : Option ExpressionKind :=
  if n < 0 then none else list[n.toNat]?

theorem ofName?_name (k : ExpressionKind) : ofName? k.name = some k := by
  cases k <;> decide

end ExpressionKind

def Expression.kind : Expression → ExpressionKind
  | .comparison .. => .comparison
  | .range .. => .range
  | .like .. => .like
  | .search .. => .search
  | .present .. => .present
  | .not .. => .not
  | .logical .. => .logical
  | .group .. => .group
  | .expedition .. => .expedition
  | .project .. => .project
  | .select .. => .select
  | .selectWith .. => .select
  | .all => .all
  | .empty => .empty

end EntityQuery
