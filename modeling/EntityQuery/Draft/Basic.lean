import EntityQuery.JoinPlan
import EntityQuery.Sql.Condition
import EntityQuery.Sql.Params

/-!
# Drafts of statements

While expressions are visited, a draft collects what the statement will need: the bound values, the
tables to be joined, the condition of the rows, and whether every row was asked for. A visit that
fails stops where it fails; what it had added to the draft by then stays.

The steps of a visit form the monad `Drafting`.
-/

namespace EntityQuery

/-! ## §1 Drafts -/

/-- The setting in which expressions are understood. -/
structure Scope where
  schema : Schema
  /-- The entity that the query is about. -/
  root : String
  policy : ColumnPolicy := .declarationOrder

/-- What a statement will need. -/
structure Draft where
  params : Sql.Params := {}
  joins : JoinRequest
  /-- The condition of the rows, if a visited expression restricts them. -/
  condition : Option Sql.Condition := none
  /-- Every row was asked for. -/
  all : Bool := false
  deriving DecidableEq, Repr

/-- The draft before any visit. -/
def Scope.emptyDraft (scope : Scope) : Draft :=
  { joins := { root := scope.root } }

def Schema.scope (s : Schema) (policy : ColumnPolicy) (root : String) :
    Except QueryError Scope :=
  match s.entity? root with
  | some e => .ok ⟨s, e.name, policy⟩
  | none => .error (.unknownEntity root)

/-! ## §2 Steps -/

/-- A step adds to a draft and yields a result or fails. -/
abbrev Drafting := ExceptT QueryError (StateM Draft)

namespace Drafting

/-- Fail because the query is invalid. -/
def reject {α : Type} (reason : InvalidReason) : Drafting α :=
  throw (.invalid reason)

/-- Bind a value; the result is its number. -/
def bind (value : String) : Drafting Nat := do
  let number := (← get).params.next
  modify fun d => { d with params := d.params.push value }
  return number

/-- Bind values one after the other; the results are their numbers. -/
def bindAll (values : List String) : Drafting (List Nat) := do
  let numbers := (← get).params.numbersFor values
  modify fun d => { d with params := d.params.append values }
  return numbers

/-- Ask for an entity. -/
def require (name : String) : Drafting Unit :=
  modify fun d => { d with joins := d.joins.require name }

/-- Ask for an entity and its rows in the result. -/
def select (name : String) : Drafting Unit :=
  modify fun d => { d with joins := d.joins.select name }

def requireExpeditions : Drafting Unit :=
  modify fun d => { d with joins := d.joins.requireExpeditions }

/-- Ask for every row. -/
def requireAll : Drafting Unit :=
  modify fun d => { d with all := true }

/-- Ask for the table that a column is read from. -/
def requireSource : ColumnSource → Drafting Unit
  | .entity owner => require owner.name
  | .expedition => requireExpeditions

/-- Find the column that a token stands for and ask for its table. -/
def resolve (scope : Scope) (token : String) : Drafting Column := do
  let column ← (scope.schema.resolve scope.policy scope.root token : Except QueryError Column)
  requireSource column.source
  return column

end Drafting

end EntityQuery
