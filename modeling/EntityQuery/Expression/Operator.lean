/-!
# Operators

The operators that compare a column with a literal, and the connectives between expressions.
-/

namespace EntityQuery

/-! ## §1 Comparison -/

inductive ComparisonOperator
  | eq
  | ne
  | gt
  | ge
  | lt
  | le
  deriving DecidableEq, Repr

namespace ComparisonOperator

/-- The operator compares by order, not by equality. -/
def isOrdering : ComparisonOperator → Bool
  | .eq | .ne => false
  | .gt | .ge | .lt | .le => true

/-- How the operator is written. -/
def symbol : ComparisonOperator → String
  | .eq => "="
  | .ne => "!="
  | .gt => ">"
  | .ge => ">="
  | .lt => "<"
  | .le => "<="

/-- Read an operator. Inequality has a second spelling. -/
def ofSymbol? (s : String) : Option ComparisonOperator :=
  if s = "<>" then some .ne
  else [eq, ne, gt, ge, lt, le].find? fun op => op.symbol = s

theorem ofSymbol?_symbol (op : ComparisonOperator) : ofSymbol? op.symbol = some op := by
  cases op <;> decide

end ComparisonOperator

/-! ## §2 Connectives -/

inductive Connective
  | and
  | or
  deriving DecidableEq, Repr

namespace Connective

/-- How the connective is written. -/
def symbol : Connective → String
  | .and => "AND"
  | .or => "OR"

def ofSymbol? (s : String) : Option Connective :=
  [and, or].find? fun c => c.symbol = s

theorem ofSymbol?_symbol (c : Connective) : ofSymbol? c.symbol = some c := by
  cases c <;> decide

end Connective

end EntityQuery
