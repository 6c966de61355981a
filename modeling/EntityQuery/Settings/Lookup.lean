import EntityQuery.Settings.Document

/-!
# Where settings come from

Settings are read from the first of these files: the one that a variable of the environment names,
the one in the working directory, and the one in the user's configuration directory. A file that
the environment names must exist; if there is none of the others, the defaults hold.

The machine is a value here, in any monad, so that a program can be run on a described machine as
well as on a real one.
-/

namespace EntityQuery

/-- What a program sees of the machine that it runs on. -/
structure Host (m : Type → Type) where
  /-- The value of a variable of the environment. -/
  getVariable : String → m (Option String)
  /-- Something lies at a path. -/
  isPresent : String → m Bool
  /-- The text of a file, if it can be read. -/
  readText : String → m (Option String)

namespace Host

variable {m : Type → Type} [Monad m]

/-! ## §1 Paths -/

def pathIn (directory entry : String) : String :=
  if directory.toList.getLast? = some '/' then directory ++ entry
  else directory ++ "/" ++ entry

/-- The user's configuration directory: the one that the environment names by an absolute path,
or else the one in the home directory. -/
def configDirectory (host : Host m) : m (Option String) := do
  let fromHome := do
    match ← host.getVariable "HOME" with
    | some home => return if home.isEmpty then none else some (pathIn home ".config")
    | none => return none
  match ← host.getVariable "XDG_CONFIG_HOME" with
  | some directory =>
    if directory.toList.head? = some '/' then return some directory else fromHome
  | none => fromHome

/-! ## §2 Settings -/

def settingsAt (host : Host m) (path : String) : m (Except SettingsError Settings) := do
  if ← host.isPresent path then
    match ← host.readText path with
    | some document => return Settings.parse document
    | none => return .error .unreadableFile
  else return .error (.missingFile path)

/-- Read the settings at the first path where something lies. -/
def firstSettings (host : Host m) : List String → m (Except SettingsError Settings)
  | [] => return .ok {}
  | path :: paths => do
    if ← host.isPresent path then host.settingsAt path else host.firstSettings paths

/-- Find the settings and read them. -/
def settings (host : Host m) : m (Except SettingsError Settings) := do
  match ← host.getVariable "FIMS_QUERY_CONFIG" with
  | some path => host.settingsAt path
  | none =>
    let user := (← host.configDirectory).map fun directory =>
      pathIn (pathIn directory "fims-query") "config.toml"
    host.firstSettings ("fims-query.toml" :: user.toList)

/-! ## §3 Variables -/

/-- The environment, as far as a text refers to it. -/
def environmentOf (host : Host m) (text : String) : m Environment := do
  let entries ← (references text).mapM fun name => return (name, ← host.getVariable name)
  return fun name => (entries.lookup name).join

/-- The path of the schema document that the settings name. -/
def projectPath (host : Host m) (s : Settings) : m (Except SettingsError (Option String)) := do
  return s.resolvedPath (← host.environmentOf (s.projectPath.getD ""))

end Host

end EntityQuery
