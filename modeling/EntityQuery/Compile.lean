import EntityQuery.Statement
import EntityQuery.Expression.Document
import EntityQuery.Schema.Document

/-!
# Compiling queries

A query expression on an entity of a schema is compiled to one statement with bound values. The
number of rows on a page is clamped to the greatest one allowed; a page without rows is an error.

Schema and expression may be given as documents. The schema is read first.
-/

namespace EntityQuery

/-! ## §1 Options -/

/-- How a query is compiled. -/
structure CompileOptions where
  /-- The network whose tables are read. -/
  network : Nat := 1
  page : Option Nat := none
  limit : Option Nat := none
  /-- The greatest number of rows on a page. -/
  maxLimit : Nat := 10000
  /-- Only rows of public expeditions are read. -/
  publicOnly : Bool := false
  policy : ColumnPolicy := .declarationOrder
  deriving DecidableEq, Repr

/-- The number of rows on a page after clamping. -/
def CompileOptions.effectiveLimit (o : CompileOptions) : Except QueryError (Option Nat) :=
  match o.limit with
  | some 0 => .error (.invalid .zeroLimit)
  | some limit => .ok (some (min limit o.maxLimit))
  | none => .ok none

/-! ## §2 Expressions -/

def Scope.compile (scope : Scope) (network : Nat) (publicOnly : Bool) (p : Pagination)
    (e : Expression) : Except QueryError Sql.Prepared :=
  match scope.emptyDraft.visit scope e with
  | (.ok (), draft) => draft.prepare scope network publicOnly p
  | (.error error, _) => .error error

/-- Compile an expression on an entity. -/
def Schema.compile (s : Schema) (root : String) (e : Expression) (o : CompileOptions) :
    Except QueryError Sql.Prepared := do
  let limit ← o.effectiveLimit
  let scope ← s.scope o.policy root
  scope.compile o.network o.publicOnly ⟨o.page, limit⟩ e

/-! ## §3 Documents -/

/-- Why documents cannot be compiled. -/
inductive CompileError
  | schema (e : SchemaError)
  /-- The expression document is malformed. -/
  | expression
  | query (e : QueryError)
  deriving DecidableEq, Repr

def CompileError.message : CompileError → String
  | .schema e => "Schema error: " ++ e.message
  | .expression => "Invalid expression document:"
  | .query e => "Query error: " ++ e.message

def compileDocuments (schema root expression : String) (o : CompileOptions) :
    Except CompileError Sql.Prepared :=
  match Schema.parse schema with
  | .error e => .error (.schema e)
  | .ok s =>
    match Expression.parse? expression with
    | none => .error .expression
    | some e => (s.compile root e o).mapError .query

end EntityQuery
