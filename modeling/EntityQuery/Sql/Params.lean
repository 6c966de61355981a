import EntityQuery.Sql.Token
import EntityQuery.Json.Printer

/-!
# Bound values

The values that a statement binds are numbered from one in the order in which they were bound. The
number of a value is its key and stands in the statement as a placeholder.
-/

namespace EntityQuery.Sql

/-! ## §1 Values -/

/-- The bound values; the first has number one. -/
structure Params where
  values : List String := []
  deriving DecidableEq, Repr

namespace Params

/-- How many values are bound. -/
def size (p : Params) : Nat :=
  p.values.length

/-- The number of the value that is bound next. -/
def next (p : Params) : Nat :=
  p.size + 1

def push (p : Params) (value : String) : Params :=
  ⟨p.values ++ [value]⟩

/-- Bind values one after the other. -/
def append (p : Params) (values : List String) : Params :=
  ⟨p.values ++ values⟩

/-- The numbers that values get when they are bound one after the other. -/
def numbersFor (p : Params) (values : List String) : List Nat :=
  List.range' p.next values.length

/-- The values with their keys. -/
def entries (p : Params) : List (String × String) :=
  p.values.zipIdx 1 |>.map fun (value, number) => (toString number, value)

end Params

/-! ## §2 Statements with values -/

/-- A statement and the values that its placeholders stand for. -/
structure Prepared where
  text : String
  params : Params
  deriving DecidableEq, Repr

namespace Prepared

/-- A statement and its values as JSON. -/
def toJson (p : Prepared) : Json :=
  .object [("sql", .text p.text),
    ("params", .object (p.params.entries.map fun (key, value) => (key, .text value)))]

end Prepared

end EntityQuery.Sql
