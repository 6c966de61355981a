/-!
# TOML values

A settings file is a table of values by name. How a table came to be decides whether it may be
extended later: a table that a header or an inline value defined is complete in that respect, while
one that only came into being on the way to another table is not.

Floats and points in time are kept without their value, which no setting has. A number that denotes
nothing is read as `void`, so that each use of a document can decide whether it matters: a reader
that skips a value does not look inside it.

* `Toml.isSolid` says that nothing in a value is `void`.
-/

namespace EntityQuery

/-- How a table came to be. -/
inductive TableOrigin
  /-- By a header of its own. -/
  | header
  /-- On the way to the table of a longer header. -/
  | implied
  /-- By a dotted name of a value. -/
  | dotted
  /-- As a value in braces. -/
  | inline
  deriving DecidableEq, Repr

inductive Toml
  | text (s : String)
  | integer (n : Int)
  | float
  | boolean (b : Bool)
  /-- A date, a time of day or both. -/
  | moment
  /-- A value in brackets. -/
  | array (items : List Toml)
  /-- The tables of headers in double brackets. -/
  | tables (items : List (List (String × Toml)))
  | table (origin : TableOrigin) (entries : List (String × Toml))
  /-- A number that denotes nothing: one that is too large or has the wrong digits. -/
  | void

namespace Toml

mutual
/-- Every part of the value denotes something. -/
def isSolid : Toml → Bool
  | .array items => areItemsSolid items
  | .tables items => areTablesSolid items
  | .table _ entries => areEntriesSolid entries
  | .void => false
  | _ => true

/-- Every part of the items denotes something. -/
def areItemsSolid : List Toml → Bool
  | [] => true
  | item :: items => isSolid item && areItemsSolid items

/-- Every part of the tables denotes something. -/
def areTablesSolid : List (List (String × Toml)) → Bool
  | [] => true
  | entries :: items => areEntriesSolid entries && areTablesSolid items

/-- Every part of the entries denotes something. -/
def areEntriesSolid : List (String × Toml) → Bool
  | [] => true
  | (_, value) :: entries => isSolid value && areEntriesSolid entries
end

/-- The entries of a table, in the order in which they came to be. -/
abbrev Entries := List (String × Toml)

def Entries.set (entries : Entries) (name : String) (value : Toml) : Entries :=
  entries.map fun entry => if entry.1 == name then (name, value) else entry

/-- The entries with another one at the end. -/
def Entries.add (entries : Entries) (name : String) (value : Toml) : Entries :=
  entries ++ [(name, value)]

end Toml

end EntityQuery
