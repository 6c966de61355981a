import EntityQuery.Draft.Basic
import EntityQuery.Expression.Basic
import EntityQuery.Range

/-!
# Visiting expressions

An expression becomes a condition of the rows. `all` and a selection restrict nothing and have no
condition; a connective with only one condition passes it on unchanged.

Expressions that are visited one after the other on one draft all have to hold: their conditions
are written one after the other with `AND` between them.
-/

namespace EntityQuery

open Sql (Condition Test)

namespace Drafting

/-! ## §1 Tests of columns -/

/-- Compare a column with a literal. Comparison by order is made in the column's type. -/
def compare (column : Column) (operator : ComparisonOperator) (value : String) :
    Drafting Condition := do
  let cast := if operator.isOrdering then column.dataType.cast? else none
  return .test (.compare column.access cast operator (← bind value))

/-- Compare a column with the bounds of a range. -/
def within (column : Column) : Range → Drafting Condition
  | .above lower => compare column (Range.lowerOperator lower) lower.value
  | .below upper => compare column (Range.upperOperator upper) upper.value
  | .between lower upper => do
    let first ← compare column (Range.lowerOperator lower) lower.value
    let second ← compare column (Range.upperOperator upper) upper.value
    return .allOf first [second]

/-- The search for all words of a term, if it has any. -/
def searchText? (term : String) : Option String :=
  match (Text.words term.toList).map String.ofList with
  | [] => none
  | words => some (" & ".intercalate words)

/-- Search for words anywhere in a row, or in one column as well as in its row. -/
def search (scope : Scope) (column : Option String) (term : String) : Drafting Condition := do
  let some text := searchText? term | reject .noSearchTerm
  match column with
  | none => return .test (.rowMatches scope.root (← bind text))
  | some token =>
    let column ← resolve scope token
    if column.source = .expedition then reject (.searchOnMetadata token)
    -- values are bound in the order in which their tests are written
    let inColumn ← bind text
    let inRow ← bind text
    return .allOf (.test (.columnMatches column.access inColumn))
      [.test (.rowMatches column.table inRow)]

/-! ## §2 Columns with a value -/

/-- Properties that lie in one JSON column. -/
structure KeyGroup where
  table : String
  jsonColumn : String
  keys : List String
  deriving DecidableEq, Repr

/-- Add the property of a column to its group. Groups are in the order in which they were met, and
so are the properties of a group, each once. -/
def addKey (column : Column) : List KeyGroup → List KeyGroup
  | [] => [⟨column.table, column.jsonColumn, [column.property]⟩]
  | g :: groups =>
    if g.table = column.table ∧ g.jsonColumn = column.jsonColumn then
      if column.property ∈ g.keys then g :: groups
      else { g with keys := g.keys ++ [column.property] } :: groups
    else g :: addKey column groups

/-- The properties of columns by the JSON column that they lie in. Identifiers always have a
value. -/
def keyGroups (columns : List Column) : List KeyGroup :=
  (columns.filter (!·.isIdentifier)).foldl (fun groups column => addKey column groups) []

/-- Test that all keys of a group are there. -/
def hasKeys (g : KeyGroup) : Drafting Condition := do
  match g.keys with
  | [key] => return .test (.hasKey g.table g.jsonColumn (← bind key))
  | keys => return .test (.hasKeys g.table g.jsonColumn (← bindAll keys))

/-- Test that columns have a value. -/
def present (scope : Scope) (tokens : List String) : Drafting Condition := do
  if tokens.isEmpty then reject .noColumn
  let columns ← tokens.mapM (resolve scope)
  match ← (keyGroups columns).mapM hasKeys with
  -- nothing but identifiers was asked for
  | [] => return .test .always
  | first :: others => return .allOf first others

/-! ## §3 Expeditions, projects and selections -/

/-- Test that a column of expeditions has one of some values. -/
def isAmong (column : Sql.ExpeditionColumn) (values : List String) : Drafting Condition := do
  requireExpeditions
  match ← bindAll values with
  | [number] => return .test (.isValue column number)
  | numbers => return .test (.isOneOf column numbers)

/-- Add an entity to the result. -/
def selectEntity (scope : Scope) (name : String) : Drafting Unit :=
  match scope.schema.entity? name with
  | some e => select e.name
  | none => throw (.unknownEntity name)

/-! ## §4 Expressions -/

def connect : Connective → Condition → Condition → Condition
  | .and => .and
  | .or => .or

/-- Two conditions under a connective, of which either may be missing. -/
def combine (connective : Connective) : Option Condition → Option Condition → Option Condition
  | none, right => right
  | left, none => left
  | some left, some right => some (connect connective left right)

/-- The condition that an expression stands for. -/
def condition (scope : Scope) : Expression → Drafting (Option Condition)
  | .comparison token operator term => do
    let column ← resolve scope token
    return some (← compare column operator term)
  | .range token spec => do
    let column ← resolve scope token
    let some range := Range.parse? spec | reject (.invalidRange spec)
    return some (← within column range)
  | .like token term => do
    let column ← resolve scope token
    return some (.test (.like column.access (← bind term)))
  | .search column term => do
    return some (← search scope column term)
  | .present tokens => do
    return some (← present scope tokens)
  | .not inner => do
    let some c ← condition scope inner | reject .nothingToNegate
    return some (.not c)
  | .logical connective left right => do
    let first ← condition scope left
    let second ← condition scope right
    return combine connective first second
  | .group inner => do
    return (← condition scope inner).map .group
  | .expedition codes => do
    if codes.isEmpty then reject .noExpeditionCode
    return some (← isAmong .code codes)
  | .project ids => do
    if ids.isEmpty then reject .noProjectId
    return some (← isAmong .projectId (ids.map fun id => toString id.toInt))
  | .select entities => do
    entities.forM (selectEntity scope)
    return none
  | .selectWith entities inner => do
    entities.forM (selectEntity scope)
    condition scope inner
  | .all => do
    requireAll
    return none
  | .empty => reject .emptyQuery

/-- Add a condition that has to hold as well. -/
def restrict (condition : Option Condition) : Drafting Unit :=
  modify fun d => { d with condition := combine .and d.condition condition }

def visit (scope : Scope) (e : Expression) : Drafting Unit := do
  restrict (← condition scope e)

end Drafting

/-- Visit an expression: the outcome, and the draft as the visit leaves it. -/
def Draft.visit (d : Draft) (scope : Scope) (e : Expression) : Except QueryError Unit × Draft :=
  (Drafting.visit scope e).run.run d

end EntityQuery
