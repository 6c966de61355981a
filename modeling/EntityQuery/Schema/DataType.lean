/-!
# Data types

Values of attributes are stored as text. An attribute's data type says how its values are to be
compared by order: both the stored text and the literal are then brought to an SQL type.
-/

namespace EntityQuery

/-! ## §1 Types -/

/-- The declared type of an attribute or metadata property. -/
inductive DataType
  | string
  | integer
  | float
  | date
  | datetime
  | time
  | boolean
  deriving DecidableEq, Repr, Inhabited

/-- How values are brought to a type in which they are compared by order: the database function
for the stored text, and the SQL type that the literal is cast to. -/
structure Cast where
  function : String
  sqlType : String
  deriving DecidableEq, Repr

namespace DataType

/-- All types, in the order of their declaration. -/
def all : List DataType :=
  [.string, .integer, .float, .date, .datetime, .time, .boolean]

/-- The cast of a type; strings are compared as they are stored. -/
def cast? : DataType → Option Cast
  | .string => none
  | .integer => some ⟨"convert_to_int", "int"⟩
  | .float => some ⟨"convert_to_float", "float"⟩
  | .date => some ⟨"convert_to_date", "date"⟩
  | .datetime => some ⟨"convert_to_datetime", "timestamp"⟩
  | .time => some ⟨"convert_to_time", "time"⟩
  | .boolean => some ⟨"convert_to_bool", "boolean"⟩

/-! ## §2 Names -/

def name : DataType → String
  | .string => "STRING"
  | .integer => "INTEGER"
  | .float => "FLOAT"
  | .date => "DATE"
  | .datetime => "DATETIME"
  | .time => "TIME"
  | .boolean => "BOOLEAN"

/-- The name of a type in a listing. -/
def title : DataType → String
  | .string => "String"
  | .integer => "Integer"
  | .float => "Float"
  | .date => "Date"
  | .datetime => "Datetime"
  | .time => "Time"
  | .boolean => "Boolean"

def ofName? (s : String) : Option DataType :=
  all.find? fun t => t.name = s

theorem ofName?_name (t : DataType) : ofName? t.name = some t := by
  cases t <;> decide

end DataType

end EntityQuery
