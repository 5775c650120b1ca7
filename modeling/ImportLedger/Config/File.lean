import ImportLedger.Config
import ImportLedger.Toml.Document

/-! Configuration files. Every setting that a file leaves out has its default. -/

namespace ImportLedger

inductive ConfigError
  | file (path : String) (cause : FileError)
  | format (path : String)
  deriving DecidableEq, Repr

namespace ConfigError

/-- The program's own words for an error. -/
def message : ConfigError → String
  | file path cause => "Failed to read config " ++ path ++ ": " ++ cause.message
  | format path => "Failed to parse config " ++ path ++ ":"

end ConfigError

namespace Config

open Toml

def fileName : String := "depscan.toml"

/-- Reads one setting; `none` when it is there and means nothing. -/
def setting {α : Type} (entries : Entries) (key : String) (default : α)
    (read : Toml → Option α) : Option α :=
  match entries.lookup key with
  | none => some default
  | some value => read value

def text? : Toml → Option String
  | .string s => some s
  | _ => none

def texts? : Toml → Option (List String)
  | .array items => items.mapM text?
  | _ => none

def flag? : Toml → Option Bool
  | .boolean b => some b
  | _ => none

def isEmptyCollection : Toml → Bool
  | .array [] | .table _ [] => true
  | _ => false

/-- A choice of colours: its name, or a table with that name for its only key and nothing in it. -/
def color? : Toml → Option ColorChoice
  | .string name => ColorChoice.ofName? name
  | .table _ [(name, value)] => if isEmptyCollection value then ColorChoice.ofName? name else none
  | _ => none

def ofEntries? (entries : Entries) : Option Config := do
  let default : Config := {}
  return {
    root := ← setting entries "root" default.root text?
    excludedDirectories :=
      ← setting entries "exclude_dirs" default.excludedDirectories texts?
    includeDev := ← setting entries "include_dev" default.includeDev flag?
    reportFile := ← setting entries "report_file" default.reportFile flag?
    summary := ← setting entries "summary" default.summary flag?
    color := ← setting entries "color" default.color color? }

def ofText? (text : String) : Option Config := Toml.ofText? text >>= ofEntries?

/-- Reads a configuration file. -/
def ofFile (disk : Disk) (path : String) : Except ConfigError Config :=
  match disk.readText path with
  | .error cause => .error (.file path cause)
  | .ok text =>
    match ofText? text with
    | some config => .ok config
    | none => .error (.format path)

/-- Reads the configuration file of a project if it has one. The project's own directory is the
root, whatever the file says. -/
def load (disk : Disk) (root : String) : Except ConfigError Config := do
  let path := Path.join root fileName
  let config ← if disk.isFile path then ofFile disk path else .ok {}
  return { config with root }

end Config

end ImportLedger
