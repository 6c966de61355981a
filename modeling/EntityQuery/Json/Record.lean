import EntityQuery.Json.Value

/-!
# Records

A record has named fields in a fixed order. A document writes it as an object, in which fields may
come in any order, unknown fields are passed over and no known field may come twice; or as an array
of its values in the order of the fields, of which trailing ones may be missing.

A choice among names is written as its name, or as an object whose only field has that name and a
value that says no more.
-/

namespace EntityQuery.Json

/-! ## §1 Records -/

/-- No known field comes twice. -/
def hasDistinct (names : List String) (fields : List (String × Json)) : Bool :=
  names.all fun name => (fields.filter (·.1 == name)).length ≤ 1

/-- The values of a record's fields in their order, `none` for a field that is missing. -/
def record? (names : List String) : Json → Option (List (Option Json))
  | .object fields =>
    if hasDistinct names fields then some (names.map fun name => fields.lookup name) else none
  | .array items =>
    if items.length ≤ names.length then
      some (items.map some ++ List.replicate (names.length - items.length) none)
    else none
  | _ => none

/-- The value of a field that may be missing. -/
def withDefault {α : Type} (default : α) (read : Json → Option α) : Option Json → Option α
  | none => some default
  | some json => read json

/-! ## §2 Choices -/

/-- The name that a value chooses; `isBare` says what may stand beside a name in an object. -/
def choice? (isBare : Json → Bool) : Json → Option String
  | .text name => some name
  | .object [(name, value)] => if isBare value then some name else none
  | _ => none

/-- The value is `null`. -/
def isNull : Json → Bool
  | .null => true
  | _ => false

end EntityQuery.Json
