import EntityQuery.Text.Digits
import EntityQuery.Width

/-!
# Options of the command line

The options that commands have, how their values are read, and the record of those that were given.
No option may be given twice.
-/

namespace EntityQuery.CommandLine

/-! ## §1 Options -/

inductive CommandOption
  | project
  | entity
  | query
  | page
  | limit
  | publicOnly
  | network
  | output
  deriving DecidableEq, Repr

namespace CommandOption

/-- The name after two hyphens. -/
def longName : CommandOption → String
  | project => "project"
  | entity => "entity"
  | query => "query"
  | page => "page"
  | limit => "limit"
  | publicOnly => "public-only"
  | network => "network-id"
  | output => "output"

/-- The letter after one hyphen. -/
def letter? : CommandOption → Option Char
  | project => some 'p'
  | entity => some 'e'
  | query => some 'q'
  | output => some 'o'
  | _ => none

def hasValue : CommandOption → Bool
  | publicOnly => false
  | _ => true

def ofCompile : List CommandOption :=
  [project, entity, query, page, limit, publicOnly, network, output]

def ofEntities : List CommandOption :=
  [project]

end CommandOption

/-- In which form a compiled query is printed. -/
inductive OutputFormat
  /-- The statement alone. -/
  | sql
  /-- The statement and its values. -/
  | json
  deriving DecidableEq, Repr

namespace OutputFormat

def name : OutputFormat → String
  | sql => "sql"
  | json => "json"

def ofName? (s : String) : Option OutputFormat :=
  [sql, json].find? (·.name == s)

theorem ofName?_name (format : OutputFormat) : ofName? format.name = some format := by
  cases format <;> decide

end OutputFormat

/-! ## §2 Values -/

/-- Read a path, which is not empty. -/
def readPath? (value : String) : Option String :=
  if value.isEmpty then none else some value

/-- Read digits that write a number of so many bits. -/
def readDigits? (bits : Nat) (cs : List Char) : Option Nat :=
  match Text.readDigits cs with
  | some (digits, []) =>
    if fitsUnsigned bits (Text.digitsToNat digits) then some (Text.digitsToNat digits) else none
  | _ => none

/-- Read a number of 64 bits, which may have a plus sign. -/
def readCount? (value : String) : Option Nat :=
  match value.toList with
  | '+' :: cs => readDigits? 64 cs
  | cs => readDigits? 64 cs

/-- Read the number of a network, which has 32 bits. Zero may have a minus sign. -/
def readNetwork? (value : String) : Option Nat :=
  match value.toList with
  | '+' :: cs => readDigits? 32 cs
  | '-' :: cs => readDigits? 0 cs
  | cs => readDigits? 32 cs

/-- The options that were given so far. -/
structure Given where
  project : Option String := none
  entity : Option String := none
  query : Option String := none
  page : Option Nat := none
  limit : Option Nat := none
  publicOnly : Bool := false
  network : Option Nat := none
  output : Option OutputFormat := none
  deriving DecidableEq, Repr

/-- A value that is given for the first time. -/
def fresh {α : Type} (old new : Option α) : Option α :=
  if old.isSome then none else new

namespace Given

/-- Give an option its value. It must not have one yet. -/
def put (g : Given) (o : CommandOption) (value : String) : Option Given :=
  match o with
  | .project => (fresh g.project (readPath? value)).map fun v => { g with project := some v }
  | .entity => (fresh g.entity (some value)).map fun v => { g with entity := some v }
  | .query => (fresh g.query (readPath? value)).map fun v => { g with query := some v }
  | .page => (fresh g.page (readCount? value)).map fun v => { g with page := some v }
  | .limit => (fresh g.limit (readCount? value)).map fun v => { g with limit := some v }
  | .publicOnly => none
  | .network => (fresh g.network (readNetwork? value)).map fun v => { g with network := some v }
  | .output =>
    (fresh g.output (OutputFormat.ofName? value)).map fun v => { g with output := some v }

/-- Give an option that has no value. -/
def mark (g : Given) (o : CommandOption) : Option Given :=
  match o with
  | .publicOnly => if g.publicOnly then none else some { g with publicOnly := true }
  | _ => none

end Given

end EntityQuery.CommandLine
