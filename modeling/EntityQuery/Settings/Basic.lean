import EntityQuery.Compile
import EntityQuery.Environment
import EntityQuery.Text.Case

/-!
# Settings

Settings say how queries are compiled unless a request says otherwise, where the schema document
lies, and how much is logged. Limits must be positive, and the level of the log must be known.
-/

namespace EntityQuery

/-! ## §1 Levels of the log -/

/-- How much is logged. -/
inductive LogLevel
  | off
  | error
  | warn
  | info
  | debug
  | trace
  deriving DecidableEq, Repr

namespace LogLevel

def name : LogLevel → String
  | off => "OFF"
  | error => "ERROR"
  | warn => "WARN"
  | info => "INFO"
  | debug => "DEBUG"
  | trace => "TRACE"

/-- The level with a name, in whatever case it is written. -/
def ofName? (s : String) : Option LogLevel :=
  [off, error, warn, info, debug, trace].find? fun level => Text.sameIgnoringCase level.name s

theorem ofName?_name (level : LogLevel) : ofName? level.name = some level := by
  cases level <;> decide

end LogLevel

/-! ## §2 Settings -/

/-- How queries are compiled. -/
structure QuerySettings where
  /-- The network whose tables are read. -/
  network : Nat := 1
  /-- The number of rows on a page of a request that does not say. -/
  defaultLimit : Option Nat := none
  /-- The greatest number of rows on a page. -/
  maxLimit : Nat := 10000
  /-- Only rows of public expeditions are read. -/
  publicOnly : Bool := false
  policy : ColumnPolicy := .declarationOrder
  deriving DecidableEq, Repr

structure Settings where
  query : QuerySettings := {}
  /-- The path of the schema document, which may refer to variables of the environment. -/
  projectPath : Option String := none
  /-- The level of the log, as it is written. -/
  logLevel : String := "warn"
  deriving DecidableEq, Repr

/-! ## §3 Errors -/

/-- Why settings are refused. -/
inductive InvalidSettings
  | zeroMaxLimit
  | zeroDefaultLimit
  | unknownLevel (level : String)
  /-- A reference to a variable is not closed. -/
  | unclosedVariable (text : String)
  deriving DecidableEq, Repr

def InvalidSettings.message : InvalidSettings → String
  | zeroMaxLimit => "query.max_limit must be greater than 0"
  | zeroDefaultLimit => "query.default_limit must be greater than 0"
  | unknownLevel level => "unknown log level '" ++ level ++ "'"
  | unclosedVariable text => "unterminated variable in '" ++ text ++ "'"

/-- Why there are no settings, or one of them has no value. -/
inductive SettingsError
  | missingFile (path : String)
  | unreadableFile
  /-- The document is no TOML, or a value in it has the wrong type. -/
  | malformed
  | missingVariable (name : String)
  | invalid (e : InvalidSettings)
  deriving DecidableEq, Repr

def SettingsError.message : SettingsError → String
  | missingFile path => "Config file not found: " ++ path
  | unreadableFile => "Failed to read config file:"
  | malformed => "Failed to parse config file:"
  | missingVariable name => "Missing environment variable: " ++ name
  | invalid e => "Invalid configuration: " ++ e.message

/-! ## §4 What settings mean -/

namespace Settings

/-- The settings, if limits are positive and the level of the log is known. -/
def validate (s : Settings) : Except SettingsError Settings :=
  if s.query.maxLimit = 0 then .error (.invalid .zeroMaxLimit)
  else if s.query.defaultLimit = some 0 then .error (.invalid .zeroDefaultLimit)
  else if (LogLevel.ofName? s.logLevel).isNone then .error (.invalid (.unknownLevel s.logLevel))
  else .ok s

/-- How a query is compiled for a request that asks for nothing special. -/
def compileOptions (s : Settings) : CompileOptions where
  network := s.query.network
  page := none
  limit := s.query.defaultLimit
  maxLimit := s.query.maxLimit
  publicOnly := s.query.publicOnly
  policy := s.query.policy

end Settings

def Environment.expandSetting (env : Environment) (text : String) :
    Except SettingsError String :=
  match env.expand text with
  | .ok value => .ok value
  | .error .unclosed => .error (.invalid (.unclosedVariable text))
  | .error (.unset name) => .error (.missingVariable name)

/-- The path of the schema document with the values of variables. -/
def Settings.resolvedPath (s : Settings) (env : Environment) :
    Except SettingsError (Option String) :=
  match s.projectPath with
  | some path => (env.expandSetting path).map some
  | none => .ok none

end EntityQuery
