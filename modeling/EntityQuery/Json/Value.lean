/-!
# JSON values

A document is read into a tree that keeps all it says: objects keep the order and the repetition
of their fields, and a number that is not a whole number keeps its spelling.

Some texts obey the grammar of JSON but denote nothing: a text or key with half of a surrogate
pair, and a number beyond every double. They are read as `void`, so that each use of a document can
decide whether they matter: a reader that skips a field does not look inside it.

* `Json.depth` counts how deeply arrays and objects nest.
* `Json.isSolid` says that nothing in the tree is `void`.
-/

namespace EntityQuery

/-! ## §1 The tree -/

inductive Json
  | null
  | bool (b : Bool)
  /-- A number written without fraction and exponent that fits 64 bits. -/
  | int (n : Int)
  /-- Any other number, as it is spelled. -/
  | real (literal : String)
  | text (s : String)
  | array (items : List Json)
  /-- The fields in the order of the document; a name may come twice. -/
  | object (fields : List (String × Json))
  /-- A value that is well formed but denotes nothing. -/
  | void
  deriving Inhabited, Repr

namespace Json

/-! ## §2 Measures of the tree -/

mutual
/-- How many arrays and objects are nested in each other, at most. -/
def depth : Json → Nat
  | .array items => depthOfItems items + 1
  | .object fields => depthOfFields fields + 1
  | _ => 0

/-- The greatest depth among the items of an array. -/
def depthOfItems : List Json → Nat
  | [] => 0
  | item :: items => max (depth item) (depthOfItems items)

/-- The greatest depth among the values of an object. -/
def depthOfFields : List (String × Json) → Nat
  | [] => 0
  | (_, value) :: fields => max (depth value) (depthOfFields fields)
end

mutual
/-- Every part of the value denotes something. -/
def isSolid : Json → Bool
  | .array items => areItemsSolid items
  | .object fields => areFieldsSolid fields
  | .void => false
  | _ => true

/-- Every item of an array is solid. -/
def areItemsSolid : List Json → Bool
  | [] => true
  | item :: items => isSolid item && areItemsSolid items

/-- Every value of an object is solid. -/
def areFieldsSolid : List (String × Json) → Bool
  | [] => true
  | (_, value) :: fields => isSolid value && areFieldsSolid fields
end

/-! ## §3 Views -/

def asText? : Json → Option String
  | .text s => some s
  | _ => none

def asArray? : Json → Option (List Json)
  | .array items => some items
  | _ => none

/-- The texts that a value lists; every item must be one. -/
def asTexts? (json : Json) : Option (List String) :=
  json.asArray?.bind fun items => items.mapM asText?

/-- `null` stands for nothing, any other value for what `read` makes of it. -/
def optional {α : Type} (read : Json → Option α) : Json → Option (Option α)
  | .null => some none
  | json => (read json).map some

end Json

end EntityQuery
