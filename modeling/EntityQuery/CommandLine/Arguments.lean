import EntityQuery.CommandLine.Options

/-!
# Arguments

A command line names a command and its options. An option is written `--name value`,
`--name=value`, `-n value`, `-nvalue` or `-n=value`; a value of its own does not begin with a
hyphen, unless it is nothing but one. Arguments are read from the left, and the first that asks for
help or that is wrong decides.
-/

namespace EntityQuery.CommandLine

/-! ## §1 Arguments -/

/-- What one argument of a command is. -/
inductive Argument
  /-- Two hyphens, after which no options follow. -/
  | separator
  | help
  /-- An option, perhaps with its value. -/
  | option (o : CommandOption) (value : Option String)
  /-- None that the command has. -/
  | other
  deriving DecidableEq, Repr

namespace Argument

/-- An argument after two hyphens. -/
def ofLong (options : List CommandOption) (cs : List Char) : Argument :=
  let name := String.ofList (cs.takeWhile (· ≠ '='))
  let value := (cs.dropWhile (· ≠ '=')).tail?.map String.ofList
  if name = "help" then if value.isSome then .other else .help
  else
    match options.find? (·.longName == name) with
    | some o => .option o value
    | none => .other

/-- An argument after one hyphen: a letter and what follows it. -/
def ofShort (options : List CommandOption) (c : Char) (cs : List Char) : Argument :=
  if c = 'h' then .help
  else
    match options.find? (·.letter? == some c) with
    | some o =>
      match cs with
      | [] => .option o none
      | '=' :: value => .option o (some (String.ofList value))
      | value => .option o (some (String.ofList value))
    | none => .other

/-- What an argument is to a command with these options. -/
def ofText (options : List CommandOption) (arg : String) : Argument :=
  match arg.toList with
  | ['-', '-'] => .separator
  | '-' :: '-' :: cs => ofLong options cs
  | '-' :: c :: cs => ofShort options c cs
  | _ => .other

end Argument

/-- The argument may be the value of the option before it. -/
def isValue (arg : String) : Bool :=
  arg = "-" || arg.toList.head? ≠ some '-'

/-! ## §2 Command lines -/

/-- Why a command line asks for nothing that can be done. -/
inductive Interruption
  /-- The arguments are wrong. -/
  | usage
  /-- They ask how the program is used. -/
  | help
  /-- They ask for its version. -/
  | version
  deriving DecidableEq, Repr

/-- Options that can be given, or a wrong command line. -/
def orUsage : Option Given → Except Interruption Given
  | some g => .ok g
  | none => .error .usage

def readOptions (options : List CommandOption) :
    Given → List String → Except Interruption Given
  | g, [] => .ok g
  | g, arg :: rest =>
    match Argument.ofText options arg with
    | .help => .error .help
    | .other => .error .usage
    | .separator => if rest.isEmpty then .ok g else .error .usage
    | .option o (some value) => do readOptions options (← orUsage (g.put o value)) rest
    | .option o none =>
      if o.hasValue then
        match rest with
        | value :: rest =>
          if isValue value then do readOptions options (← orUsage (g.put o value)) rest
          else .error .usage
        | [] => .error .usage
      else do readOptions options (← orUsage (g.mark o)) rest

/-- What a query is compiled from and how. -/
structure CompileRequest where
  /-- The path of the schema document. -/
  project : Option String
  entity : String
  /-- The path of the expression document. -/
  query : String
  page : Option Nat
  limit : Option Nat
  publicOnly : Bool
  network : Option Nat
  output : OutputFormat
  deriving DecidableEq, Repr

/-- What a command line asks for. -/
inductive Request
  | compile (r : CompileRequest)
  /-- A list of the entities of a schema. -/
  | entities (project : Option String)
  deriving DecidableEq, Repr

/-- The request to compile a query. An entity and a query must have been given. -/
def CompileRequest.ofGiven? (g : Given) : Option CompileRequest := do
  return {
    project := g.project
    entity := ← g.entity
    query := ← g.query
    page := g.page
    limit := g.limit
    publicOnly := g.publicOnly
    network := g.network
    output := g.output.getD .sql }

/-- Read what follows the word that asks for help: nothing, or the name of a command. -/
def readHelp (rest : List String) : Interruption :=
  if rest = [] || rest = ["compile"] || rest = ["entities"] || rest = ["help"] then .help
  else .usage

/-- Read an argument in the place of a command. -/
def readGlobal (arg : String) : Interruption :=
  match arg.toList with
  | '-' :: 'V' :: _ => .version
  | '-' :: 'h' :: _ => .help
  | cs =>
    if cs = "--version".toList then .version
    else if cs = "--help".toList then .help
    else .usage

def parse : List String → Except Interruption Request
  | [] => .error .usage
  | "compile" :: rest => do
    match CompileRequest.ofGiven? (← readOptions CommandOption.ofCompile {} rest) with
    | some r => return .compile r
    | none => .error .usage
  | "entities" :: rest => return .entities (← readOptions CommandOption.ofEntities {} rest).project
  | "help" :: rest => .error (readHelp rest)
  | arg :: _ => .error (readGlobal arg)

end EntityQuery.CommandLine
