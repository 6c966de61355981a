/-!
# Errors of queries

Why a query cannot be compiled. Every error has a stable code for clients and a message for
readers. The errors that concern a query as a whole share one code and are told apart by their
reason.
-/

namespace EntityQuery

/-! ## §1 Causes -/

/-- What makes a query invalid as a whole. -/
inductive InvalidReason
  /-- The query restricts nothing and does not ask for everything. -/
  | emptyQuery
  /-- The query asks for everything and restricts it. -/
  | allWithPredicate
  | zeroLimit
  | pageOutOfRange
  | nothingToNegate
  | noExpeditionCode
  | noProjectId
  | noSearchTerm
  | searchOnMetadata (column : String)
  | noColumn
  | invalidRange (spec : String)
  deriving DecidableEq, Repr

/-- Why a query cannot be compiled. -/
inductive QueryError
  | unknownEntity (name : String)
  | unknownColumn (column : String)
  /-- A plain column name that several entities declare. -/
  | ambiguousColumn (column : String) (entities : List String)
  /-- An entity that no path joins to the root. -/
  | unrelatedEntities (entity root : String)
  | invalid (reason : InvalidReason)
  deriving DecidableEq, Repr

/-! ## §2 Texts -/

def InvalidReason.message : InvalidReason → String
  | emptyQuery => "query must not be empty"
  | allWithPredicate => "an all query cannot be combined with other predicates"
  | zeroLimit => "limit must be greater than 0"
  | pageOutOfRange => "page out of range"
  | nothingToNegate => "not requires a predicate to negate"
  | noExpeditionCode => "expedition filter requires at least one expedition code"
  | noProjectId => "project filter requires at least one project id"
  | noSearchTerm => "full text search requires a search term"
  | searchOnMetadata column => s!"full text search is not supported on {column}"
  | noColumn => "exists requires at least one column"
  | invalidRange spec => s!"invalid range {spec}"

namespace QueryError

def code : QueryError → String
  | unknownEntity _ => "UNKNOWN_ENTITY"
  | unknownColumn _ => "UNKNOWN_COLUMN"
  | ambiguousColumn _ _ => "AMBIGUOUS_COLUMN"
  | unrelatedEntities _ _ => "UNRELATED_ENTITIES"
  | invalid _ => "INVALID_QUERY"

def message : QueryError → String
  | unknownEntity name => s!"Unknown entity: {name}"
  | unknownColumn column => s!"Unknown column: {column}"
  | ambiguousColumn column entities =>
    s!"Column '{column}' is defined on several entities: " ++ ", ".intercalate entities
  | unrelatedEntities entity root =>
    s!"Entity '{entity}' is not related to query entity '{root}'"
  | invalid reason => "Invalid query: " ++ reason.message

end QueryError

end EntityQuery
