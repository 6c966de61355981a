import EntityQuery.Draft.Visit
import EntityQuery.Width

/-!
# Statements

A finished draft is assembled into a SELECT statement. It reads the data and the identifier of the
root and of each selected entity, and the code and project of the expedition; it is ordered by the
root's identifiers, so that its rows can be cut into pages.

A draft either restricts the rows or asks for all of them, and never both.
-/

namespace EntityQuery

open Sql (Condition)

/-! ## §1 Pages -/

/-- Which part of the rows is asked for. -/
structure Pagination where
  /-- The number of the page; the first one has number zero. -/
  page : Option Nat := none
  /-- The number of rows on a page. -/
  limit : Option Nat := none
  deriving DecidableEq, Repr

/-- The rows of a page: how many come before it and how many it has at most. -/
structure Window where
  offset : Nat
  limit : Nat
  deriving DecidableEq, Repr

/-- The rows of a page. Without limit there is one page with all rows; otherwise the number of
rows before the page must fit 64 bits. -/
def Pagination.window (p : Pagination) : Except QueryError (Option Window) :=
  match p.limit with
  | none => .ok none
  | some limit =>
    let offset := p.page.getD 0 * limit
    if fitsUnsigned 64 offset then .ok (some ⟨offset, limit⟩)
    else .error (.invalid .pageOutOfRange)

/-! ## §2 Parts of a statement -/

/-- The columns that are read from an entity. -/
def entityItems (entity : String) : List Sql.SelectItem :=
  [.ofColumn entity "data" (some (entity ++ "_data")),
   .ofColumn (identifiersName entity) "identifier" (some (entity ++ "_rootIdentifier"))]

/-- The columns that are read from the expeditions. -/
def expeditionItems : List Sql.SelectItem :=
  [.ofColumn expeditionsTable "expedition_code" (some "expeditionCode"),
   .ofColumn expeditionsTable "project_id" (some "projectId")]

/-- The columns by which the rows are ordered. -/
def rootOrder (root : String) : List (List Sql.Token) :=
  [Sql.column root "local_identifier", Sql.column root "expedition_id"]

/-- A condition narrowed to public expeditions. What is there is put into parentheses first. -/
def narrowToPublic : Option Condition → Condition
  | none => .test .isPublic
  | some c => .and (.group c) (.test .isPublic)

namespace Draft

/-- The condition of a finished draft; there is none if every row was asked for. -/
def finalCondition (d : Draft) : Except QueryError (Option Condition) :=
  match d.condition, d.all with
  | none, false => .error (.invalid .emptyQuery)
  | some _, true => .error (.invalid .allWithPredicate)
  | condition, _ => .ok condition

/-- The joins of a finished draft. The expeditions are always read. -/
def finalJoins (d : Draft) : JoinRequest :=
  d.joins.requireExpeditions

/-! ## §3 Assembly -/

def query (d : Draft) (scope : Scope) (network : Nat) (publicOnly : Bool) (p : Pagination) :
    Except QueryError Sql.Query := do
  let condition ← d.finalCondition
  if p.limit = some 0 then throw (.invalid .zeroLimit)
  let joins ← d.finalJoins.joins scope.schema network
  let window ← p.window
  let filter := if publicOnly then some (narrowToPublic condition) else condition
  return {
    select := entityItems scope.root ++ expeditionItems ++
      (d.finalJoins.selection scope.schema).flatMap entityItems
    source := entityTable network scope.root
    joins
    filter := filter.elim [] Condition.tokens
    orderBy := rootOrder scope.root
    offset := window.map (·.offset)
    limit := window.map (·.limit) }

def prepare (d : Draft) (scope : Scope) (network : Nat) (publicOnly : Bool) (p : Pagination) :
    Except QueryError Sql.Prepared :=
  (d.query scope network publicOnly p).map fun q => ⟨q.text, d.params⟩

end Draft

end EntityQuery
