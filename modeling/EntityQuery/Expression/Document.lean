import EntityQuery.Expression.Kind
import EntityQuery.Json.Reader
import EntityQuery.Json.Printer
import EntityQuery.Json.Record
import EntityQuery.Width

/-!
# Expression documents

An expression is read from a JSON document and written as one. A node is an object with a field
`type`, which names its kind, beside the fields of that kind; or an array of the kind followed by
the values of the fields. Below the root the kind may also be given by its number.

An expression document is taken in as a whole before it is interpreted: every part of it has to
denote something, passed over or not, and it may nest no more than 127 arrays and objects.
-/

namespace EntityQuery

namespace Expression

/-! ## §1 Writing -/

def tagged (kind : ExpressionKind) (fields : List (String × Json)) : Json :=
  .object (("type", .text kind.name) :: fields)

def textsToJson (texts : List String) : Json :=
  .array (texts.map .text)

def toJson : Expression → Json
  | .comparison column operator term =>
    tagged .comparison
      [("column", .text column), ("operator", .text operator.symbol), ("term", .text term)]
  | .range column spec => tagged .range [("column", .text column), ("range", .text spec)]
  | .like column term => tagged .like [("column", .text column), ("term", .text term)]
  | .search column term =>
    tagged .search [("column", column.elim .null .text), ("term", .text term)]
  | .present columns => tagged .present [("columns", textsToJson columns)]
  | .not inner => tagged .not [("expression", inner.toJson)]
  | .logical connective left right =>
    tagged .logical
      [("operator", .text connective.symbol), ("left", left.toJson), ("right", right.toJson)]
  | .group inner => tagged .group [("expression", inner.toJson)]
  | .expedition codes => tagged .expedition [("expeditions", textsToJson codes)]
  | .project ids => tagged .project [("projects", .array (ids.map fun id => .int id.toInt))]
  | .select entities =>
    tagged .select [("entities", textsToJson entities), ("expression", .null)]
  | .selectWith entities inner =>
    tagged .select [("entities", textsToJson entities), ("expression", inner.toJson)]
  | .all => tagged .all []
  | .empty => tagged .empty []

def serialize (e : Expression) : String :=
  e.toJson.compact

/-! ## §2 The kind of a node -/

/-- The kind that a value gives; only below the root may it be a number. -/
def kindOfJson? (isRoot : Bool) : Json → Option ExpressionKind
  | .text name => ExpressionKind.ofName? name
  | .int n => if isRoot then none else ExpressionKind.ofNumber? n
  | _ => none

/-- The kind of a node, and the value without the kind. -/
def splitKind? (isRoot : Bool) : Json → Option (ExpressionKind × Json)
  | .object fields =>
    match fields.filter (·.1 == "type") with
    | [(_, kind)] =>
      (kindOfJson? isRoot kind).map (·, .object (fields.filter (·.1 != "type")))
    | _ => none
  | .array (kind :: items) => (kindOfJson? isRoot kind).map (·, .array items)
  | _ => none

/-! ## §3 Reading -/

/-- Beside the name of an operator in an object may stand `null` or an object without fields. -/
def isBlankValue : Json → Bool
  | .null => true
  | .object [] => true
  | _ => false

def operatorOfJson? (json : Json) : Option ComparisonOperator :=
  (json.choice? isBlankValue).bind ComparisonOperator.ofSymbol?

def connectiveOfJson? (json : Json) : Option Connective :=
  (json.choice? isBlankValue).bind Connective.ofSymbol?

/-- Read a project identifier: an integer of 64 bits with sign. -/
def projectIdOfJson? : Json → Option Int64
  | .int n => if fitsSigned 64 n then some (.ofInt n) else none
  | _ => none

/-- A node without fields passes over those it is given, but has no place for items. -/
def hasNoItems : Json → Bool
  | .array [] => true
  | .object _ => true
  | _ => false

/-- Read a node of a kind, given how the nodes below it are read. -/
def fieldsOfJson? (read : Json → Option Expression) (kind : ExpressionKind) (json : Json) :
    Option Expression :=
  match kind with
  | .comparison => do
    let [some column, some operator, some term] ← json.record? ["column", "operator", "term"]
      | none
    return .comparison (← column.asText?) (← operatorOfJson? operator) (← term.asText?)
  | .range => do
    let [some column, some spec] ← json.record? ["column", "range"] | none
    return .range (← column.asText?) (← spec.asText?)
  | .like => do
    let [some column, some term] ← json.record? ["column", "term"] | none
    return .like (← column.asText?) (← term.asText?)
  | .search => do
    let [column, some term] ← json.record? ["column", "term"] | none
    return .search (← Json.withDefault none (Json.optional Json.asText?) column) (← term.asText?)
  | .present => do
    let [some columns] ← json.record? ["columns"] | none
    return .present (← columns.asTexts?)
  | .not => do
    let [some inner] ← json.record? ["expression"] | none
    return .not (← read inner)
  | .logical => do
    let [some connective, some left, some right] ← json.record? ["operator", "left", "right"]
      | none
    return .logical (← connectiveOfJson? connective) (← read left) (← read right)
  | .group => do
    let [some inner] ← json.record? ["expression"] | none
    return .group (← read inner)
  | .expedition => do
    let [some codes] ← json.record? ["expeditions"] | none
    return .expedition (← codes.asTexts?)
  | .project => do
    let [some ids] ← json.record? ["projects"] | none
    return .project (← (← ids.asArray?).mapM projectIdOfJson?)
  | .select => do
    let [some entities, inner] ← json.record? ["entities", "expression"] | none
    let entities ← entities.asTexts?
    match ← Json.withDefault none (Json.optional read) inner with
    | some inner => return .selectWith entities inner
    | none => return .select entities
  | .all => if hasNoItems json then some .all else none
  | .empty => if hasNoItems json then some .empty else none

/-- Read a node and what lies below it, which nests less deeply than the fuel. -/
def nodeOfJson? : Nat → (isRoot : Bool) → Json → Option Expression
  | 0, _, _ => none
  | fuel + 1, isRoot, json =>
    (splitKind? isRoot json).bind fun (kind, rest) =>
      fieldsOfJson? (nodeOfJson? fuel false) kind rest

/-- How many arrays and objects may nest in an expression document. -/
def maxNesting : Nat := 127

def ofJson? (json : Json) : Option Expression :=
  if json.isSolid && json.depth ≤ maxNesting then nodeOfJson? (json.depth + 1) true json else none

def parse? (document : String) : Option Expression :=
  (Json.parse document).bind ofJson?

end Expression

end EntityQuery
