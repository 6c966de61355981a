import EntityQuery.CommandLine.Arguments
import EntityQuery.Listing
import EntityQuery.Settings.Lookup

/-!
# The program

A run reads the arguments, then the settings, then the documents. It ends with an exit code: zero if
it did what was asked, one if something was refused, two if the arguments were wrong. Documents
are only read once the settings are known to be valid, the schema before the expression.
-/

namespace EntityQuery.CommandLine

/-! ## §1 Outcomes -/

/-- How a run ends: its exit code and what it prints. -/
structure Outcome where
  exitCode : Nat
  output : String := ""
  errors : String := ""
  deriving DecidableEq, Repr

def versionText : String := "fims-query 0.1.0\n"

/-- How the program is used. -/
def usageText : String :=
  "Compile entity query expressions into parameterized PostgreSQL\n\n" ++
  "Usage: fims-query compile --entity <ENTITY> --query <QUERY> [OPTIONS]\n" ++
  "       fims-query entities [--project <PROJECT>]\n\n" ++
  "Options:\n" ++
  "  -p, --project <PROJECT>        Project schema (JSON)\n" ++
  "  -e, --entity <ENTITY>          Concept alias of the entity being queried\n" ++
  "  -q, --query <QUERY>            Expression tree (JSON)\n" ++
  "      --page <PAGE>              Zero-based page number\n" ++
  "      --limit <LIMIT>            Page size\n" ++
  "      --public-only              Only return rows from public expeditions\n" ++
  "      --network-id <NETWORK_ID>  Network whose schema holds the entity tables\n" ++
  "  -o, --output <OUTPUT>          Output format: sql (default) or json\n" ++
  "  -h, --help                     Print help\n" ++
  "  -V, --version                  Print version\n"

/-- A run that arguments end before it begins. -/
def Interruption.outcome : Interruption → Outcome
  | usage => { exitCode := 2, errors := usageText }
  | help => { exitCode := 0, output := usageText }
  | version => { exitCode := 0, output := versionText }

/-- A run that prints a text, or fails with a message. -/
def Outcome.ofResult : Except String String → Outcome
  | .ok output => { exitCode := 0, output }
  | .error message => { exitCode := 1, errors := message ++ "\n" }

/-! ## §2 Commands on documents -/

/-- How a query is compiled for a request, where settings say what the request does not. -/
def CompileRequest.options (r : CompileRequest) (s : Settings) : CompileOptions :=
  let base := s.compileOptions
  { base with
    page := r.page
    limit := r.limit.or base.limit
    publicOnly := r.publicOnly || base.publicOnly
    network := r.network.getD base.network }

/-- The text of a compiled query. -/
def OutputFormat.render (format : OutputFormat) (p : Sql.Prepared) : String :=
  match format with
  | sql => p.text ++ "\n"
  | json => p.toJson.indented ++ "\n"

/-- The message for documents that cannot be compiled. Errors of the query come with their code. -/
def compileFailure : CompileError → String
  | .query e => "Compilation error [" ++ e.code ++ "]: " ++ e.message
  | e => "Compilation error: " ++ e.message

def CompileRequest.compile (r : CompileRequest) (s : Settings) (schema expression : String) :
    Except String String :=
  match compileDocuments schema r.entity expression (r.options s) with
  | .ok p => .ok (r.output.render p)
  | .error e => .error (compileFailure e)

def listEntities (schema : String) : Except String String :=
  match Schema.parse schema with
  | .ok s => .ok s.listing
  | .error e => .error ("Schema error: " ++ e.message)

/-! ## §3 Runs -/

variable {m : Type → Type} [Monad m]

def readDocument (host : Host m) (path : String) : ExceptT String m String := do
  match ← host.readText path with
  | some document => return document
  | none => throw ("Error reading file '" ++ path ++ "':")

/-- Read the schema document: the one that was asked for, or else that of the settings. -/
def readSchema (host : Host m) (s : Settings) (project : Option String) :
    ExceptT String m String := do
  match project with
  | some path => readDocument host path
  | none =>
    match ← host.projectPath s with
    | .ok (some path) => readDocument host path
    | .ok none => throw "No project schema given; pass --project or set [project] path"
    | .error e => throw ("Error resolving project path: " ++ e.message)

/-- Do what was asked for. -/
def Request.fulfil (host : Host m) (s : Settings) : Request → ExceptT String m String
  | .compile r => do
    let schema ← readSchema host s r.project
    let expression ← readDocument host r.query
    MonadExcept.ofExcept (r.compile s schema expression)
  | .entities project => do
    let schema ← readSchema host s project
    MonadExcept.ofExcept (listEntities schema)

/-- Find the settings and do what was asked for. -/
def Request.run (host : Host m) (request : Request) : ExceptT String m String := do
  match ← host.settings with
  | .ok s => request.fulfil host s
  | .error e => throw ("Error loading settings: " ++ e.message)

/-- Run the program. -/
def run (host : Host m) (args : List String) : m Outcome :=
  match parse args with
  | .ok request => do return .ofResult (← (request.run host).run)
  | .error interruption => pure interruption.outcome

end EntityQuery.CommandLine
