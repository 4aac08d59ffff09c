import ResourceApi.Settings.TomlReader

/-!
# Service settings

Settings name the prefix that resources are served under, the database and the way its
transactions begin. Everything has a default, and a table may also be given as the list of its
values in order. Unknown keys are ignored as long as every number under them can be held.
-/

namespace ResourceApi

/-- When a transaction takes its locks. -/
inductive TransactionMode where
  /-- When they are needed. -/
  | deferred
  /-- For writing, at once. -/
  | immediate
  /-- For everything, at once. -/
  | exclusive
  deriving DecidableEq, Repr

namespace TransactionMode

/-- The name of a mode. -/
def name : TransactionMode → String
  | deferred => "deferred"
  | immediate => "immediate"
  | exclusive => "exclusive"

/-- The mode of a name. -/
def ofName? (name : String) : Option TransactionMode :=
  [deferred, immediate, exclusive].find? (·.name = name)

end TransactionMode

/-- The path of a database that is kept in memory. -/
def memoryPath : String := ":memory:"

/-- The settings of a service. -/
structure Settings where
  apiPrefix : String := "/api"
  databasePath : String := memoryPath
  transaction : TransactionMode := .deferred
  deriving DecidableEq, Repr

/-- Why settings cannot be read. -/
inductive SettingsError where
  | unreadable
  | malformed
  | invalidPrefix (apiPrefix : String)
  deriving DecidableEq, Repr

/-- What is said of a prefix that does not begin with a slash. -/
def SettingsError.message : SettingsError → String
  | unreadable => "IO error"
  | malformed => "Parse error"
  | invalidPrefix p => s!"API prefix '{p}' must start with '/'"

namespace Settings

/-- Whether the database is kept in memory. -/
def isInMemory (s : Settings) : Bool := s.databasePath = memoryPath

/-- Whether nothing is in a value that stands for an alternative without content. -/
def isEmptyContent : Toml → Bool
  | .array items | .tables items => items.isEmpty
  | .table _ members => members.isEmpty
  | _ => false

/-- The text of a value, or the default where it is left out. -/
def text? (default : String) : Option Toml → Option String
  | none => some default
  | some (.text s) => some s
  | some _ => none

/-- The transaction mode of a value: its name, or a table with the name as its only key. -/
def mode? : Option Toml → Option TransactionMode
  | none => some .deferred
  | some (.text s) => TransactionMode.ofName? s
  | some (.table _ [(key, content)]) =>
    if isEmptyContent content then TransactionMode.ofName? key else none
  | some _ => none

/-- Whether the members other than the known ones can be ignored. -/
def ignoresOthers (known : List String) (members : List (String × Toml)) : Bool :=
  Toml.membersFit (members.filter fun (key, _) => !known.contains key)

/-- The path and the mode of the database. A date or time of day says nothing of either. -/
def database? : Option Toml → Option (String × TransactionMode)
  | none | some .moment => some (memoryPath, .deferred)
  | some (.table _ members) =>
    if ignoresOthers ["path", "transaction"] members then do
      return (← text? memoryPath (Toml.lookup "path" members),
        ← mode? (Toml.lookup "transaction" members))
    else none
  | some (.array items) | some (.tables items) => do
    return (← text? memoryPath items[0]?, ← mode? items[1]?)
  | some _ => none

/-- Reads settings from TOML text. -/
def parse (s : String) : Except SettingsError Settings :=
  let read : Option Settings := do
    let root ← Toml.parse? s
    guard (ignoresOthers ["api_prefix", "database"] root)
    let apiPrefix ← text? "/api" (Toml.lookup "api_prefix" root)
    let (path, mode) ← database? (Toml.lookup "database" root)
    return ⟨apiPrefix, path, mode⟩
  match read with
  | none => .error .malformed
  | some settings =>
    if settings.apiPrefix.isEmpty || settings.apiPrefix.toList.head? = some '/' then .ok settings
    else .error (.invalidPrefix settings.apiPrefix)

end Settings

end ResourceApi
