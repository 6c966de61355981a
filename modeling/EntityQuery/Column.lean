import EntityQuery.Schema.Hierarchy
import EntityQuery.QueryError
import EntityQuery.Sql.Token

/-!
# Columns

Queries name columns by tokens. A qualified token is `Entity.column`, or `expedition.property` for
the metadata of expeditions; everything after the first dot belongs to the column. A plain token is
looked up in all entities, and a policy decides between several that declare it.

A column that identifies a row or its parent is stored as a column of its own; any other value lies
in a JSON column under the property's URI.
-/

namespace EntityQuery

/-! ## §1 Where a column is stored -/

def expeditionsTable : String := "expeditions"

/-- How the value of a column is read from a table. -/
inductive Access
  | localIdentifier (table : String)
  | parentIdentifier (table : String)
  /-- A key of a JSON column. -/
  | property (table jsonColumn key : String)
  deriving DecidableEq, Repr

/-- The tokens that read a value. -/
def Access.tokens : Access → List Sql.Token
  | .localIdentifier table => Sql.column table "local_identifier"
  | .parentIdentifier table => Sql.column table "parent_identifier"
  | .property table jsonColumn key =>
    Sql.column table jsonColumn ++ [.symbol .jsonText, .literal key]

/-! ## §2 Columns -/

/-- What a column belongs to. -/
inductive ColumnSource
  | entity (owner : Entity)
  /-- The metadata of expeditions. -/
  | expedition
  deriving DecidableEq, Repr

/-- A column that a token stands for. -/
structure Column where
  source : ColumnSource
  /-- The URI of an attribute, or the name of a metadata property. -/
  property : String
  dataType : DataType
  isLocalIdentifier : Bool
  isParentIdentifier : Bool
  deriving DecidableEq, Repr

namespace Column

def ofEntity? (s : Schema) (e : Entity) (column : String) : Option Column :=
  (e.attribute? column).map fun a =>
    { source := .entity e
      property := a.uri
      dataType := a.dataType
      isLocalIdentifier := e.keyUri? == some a.uri
      isParentIdentifier := (s.parent? e).any (·.uniqueKey == column) }

/-- A metadata property, as it is written. Its type is the declared one, or string. -/
def ofMetadata (s : Schema) (property : String) : Column :=
  { source := .expedition
    property
    dataType := ((s.metadataProperty? property).map (·.dataType)).getD .string
    isLocalIdentifier := false
    isParentIdentifier := false }

/-- The entity that a column belongs to. -/
def owner? (c : Column) : Option Entity :=
  match c.source with
  | .entity owner => some owner
  | .expedition => none

def table (c : Column) : String :=
  match c.source with
  | .entity owner => owner.name
  | .expedition => expeditionsTable

/-- The JSON column that holds the values of properties. -/
def jsonColumn (c : Column) : String :=
  match c.source with
  | .entity _ => "data"
  | .expedition => "metadata"

/-- The column identifies a row or its parent. -/
def isIdentifier (c : Column) : Bool :=
  c.isLocalIdentifier || c.isParentIdentifier

/-- How the values of a column are read. -/
def access (c : Column) : Access :=
  if c.isLocalIdentifier then .localIdentifier c.table
  else if c.isParentIdentifier then .parentIdentifier c.table
  else .property c.table c.jsonColumn c.property

end Column

/-! ## §3 Resolution -/

/-- How a plain column name that several entities declare is resolved. -/
inductive ColumnPolicy
  /-- The entity declared first. -/
  | declarationOrder
  /-- The root of the query if it declares the column, else the entity declared first. -/
  | preferRoot
  /-- The name is ambiguous. -/
  | strict
  deriving DecidableEq, Repr, Inhabited

namespace ColumnPolicy

def name : ColumnPolicy → String
  | declarationOrder => "declaration_order"
  | preferRoot => "prefer_root"
  | strict => "strict"

def ofName? (s : String) : Option ColumnPolicy :=
  [declarationOrder, preferRoot, strict].find? fun p => p.name = s

theorem ofName?_name (p : ColumnPolicy) : ofName? p.name = some p := by
  cases p <;> decide

end ColumnPolicy

/-- The qualifier of expedition metadata, in whatever case it is written. -/
def expeditionQualifier : String := "expedition"

/-- A token split at its first dot. -/
def splitQualifier? : List Char → Option (List Char × List Char)
  | [] => none
  | c :: cs =>
    if c = '.' then some ([], cs)
    else (splitQualifier? cs).map fun (qualifier, column) => (c :: qualifier, column)

namespace Schema

/-- What a qualified token stands for. -/
def resolveQualified (s : Schema) (token qualifier column : String) :
    Except QueryError Column :=
  if Text.sameIgnoringCase qualifier expeditionQualifier then
    if column.isEmpty then .error (.unknownColumn token) else .ok (.ofMetadata s column)
  else
    match s.entity? qualifier with
    | none => .error (.unknownEntity token)
    | some e =>
      match Column.ofEntity? s e column with
      | none => .error (.unknownColumn token)
      | some c => .ok c

/-- The entity among those that declare a plain column name that a policy picks. -/
def pick (policy : ColumnPolicy) (root column : String) :
    List Entity → Except QueryError Entity
  | [] => .error (.unknownColumn column)
  | [only] => .ok only
  | first :: others =>
    match policy with
    | .strict => .error (.ambiguousColumn column ((first :: others).map (·.name)))
    | .preferRoot => .ok (((first :: others).find? (·.name == root)).getD first)
    | .declarationOrder => .ok first

/-- What a plain token stands for. -/
def resolvePlain (s : Schema) (policy : ColumnPolicy) (root token : String) :
    Except QueryError Column :=
  match pick policy root token (s.withColumn token) with
  | .error e => .error e
  | .ok owner =>
    match Column.ofEntity? s owner token with
    | none => .error (.unknownColumn token)
    | some c => .ok c

/-- What a token stands for in a query on a root entity. -/
def resolve (s : Schema) (policy : ColumnPolicy) (root token : String) :
    Except QueryError Column :=
  match splitQualifier? token.toList with
  | some (qualifier, column) =>
    s.resolveQualified token (String.ofList qualifier) (String.ofList column)
  | none => s.resolvePlain policy root token

end Schema

end EntityQuery
