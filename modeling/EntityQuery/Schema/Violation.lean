import EntityQuery.Schema.Entity
import EntityQuery.Text.Case

/-!
# Violations of a schema's rules

What can be wrong with a list of entities, and the checks that find it. A name is an identifier
and not the name of a table of the system; columns and URIs are distinct within an entity and its
unique key is one of the columns; names are distinct; parents are declared; and following parents
comes to an end (`EntityQuery.Schema.Cycle`).

The first violation found is the one reported. Each entity is checked by itself in the order of
declaration; what concerns several entities follows.
-/

namespace EntityQuery

/-! ## §1 Violations -/

/-- A rule that a list of entities breaks, and where. -/
inductive Violation
  | duplicateEntity (name : String)
  | invalidName (name : String)
  | reservedName (name : String)
  | unknownParent (entity parent : String)
  | cyclicHierarchy (name : String)
  | duplicateColumn (entity column : String)
  | duplicateUri (entity uri : String)
  | unknownUniqueKey (entity uniqueKey : String)
  deriving DecidableEq, Repr

def Violation.message : Violation → String
  | .duplicateEntity name => s!"Duplicate entity: {name}"
  | .invalidName name => s!"Invalid concept alias '{name}': expected [A-Za-z_][A-Za-z0-9_]*"
  | .reservedName name => s!"Concept alias '{name}' is reserved"
  | .unknownParent entity parent => s!"Entity '{entity}' references unknown parent '{parent}'"
  | .cyclicHierarchy name => s!"Entity hierarchy contains a cycle through '{name}'"
  | .duplicateColumn entity column => s!"Duplicate column '{column}' on entity '{entity}'"
  | .duplicateUri entity uri => s!"Duplicate attribute uri '{uri}' on entity '{entity}'"
  | .unknownUniqueKey entity uniqueKey =>
    s!"Unique key '{uniqueKey}' is not an attribute of entity '{entity}'"

/-! ## §2 Names -/

/-- A letter of ASCII or an underscore. -/
def isIdentifierStart (c : Char) : Bool :=
  c.isAlpha || c = '_'

/-- A letter or digit of ASCII or an underscore. -/
def isIdentifierPart (c : Char) : Bool :=
  c.isAlphanum || c = '_'

/-- The text is an identifier: a letter or underscore, then letters, digits and underscores. -/
def isIdentifier (s : String) : Bool :=
  match s.toList with
  | [] => false
  | c :: cs => isIdentifierStart c && cs.all isIdentifierPart

/-- The names that no entity may have: those of the tables of the system, and the qualifier of
expedition metadata. -/
def reservedNames : List String :=
  ["expeditions", "entity_identifiers", "expedition"]

/-- The name is reserved, in whatever case it is written. -/
def isReserved (name : String) : Bool :=
  reservedNames.any (Text.sameIgnoringCase · name)

/-! ## §3 One entity -/

/-- The first attribute whose column or URI came before. -/
def attributeViolation? (entity : String) :
    (columns uris : List String) → List Attribute → Option Violation
  | _, _, [] => none
  | columns, uris, a :: rest =>
    if a.column ∈ columns then some (.duplicateColumn entity a.column)
    else if a.uri ∈ uris then some (.duplicateUri entity a.uri)
    else attributeViolation? entity (a.column :: columns) (a.uri :: uris) rest

/-- What is wrong with an entity by itself. -/
def entityViolation? (e : Entity) : Option Violation :=
  if !isIdentifier e.name then some (.invalidName e.name)
  else if isReserved e.name then some (.reservedName e.name)
  else if e.parent = some e.name then some (.cyclicHierarchy e.name)
  else match attributeViolation? e.name [] [] e.attributes with
    | some violation => some violation
    | none =>
      if (e.attribute? e.uniqueKey).isNone then some (.unknownUniqueKey e.name e.uniqueKey)
      else none

/-! ## §4 Several entities -/

/-- The first entity that is wrong by itself or has the name of an earlier one. -/
def firstEntityViolation? : (earlier : List String) → List Entity → Option Violation
  | _, [] => none
  | earlier, e :: rest =>
    match entityViolation? e with
    | some violation => some violation
    | none =>
      if e.name ∈ earlier then some (.duplicateEntity e.name)
      else firstEntityViolation? (e.name :: earlier) rest

/-- The first parent that is not among the declared names. -/
def parentViolation? (declared : List String) : List Entity → Option Violation
  | [] => none
  | e :: rest =>
    match e.parent with
    | some parent =>
      if parent ∈ declared then parentViolation? declared rest
      else some (.unknownParent e.name parent)
    | none => parentViolation? declared rest

end EntityQuery
