import ImportLedger.Disk.Source

/-! Settings of a scan. -/

namespace ImportLedger

/-- When to use colours. -/
inductive ColorChoice
  /-- Only on a terminal. -/
  | auto
  | always
  | never
  deriving DecidableEq, Repr

namespace ColorChoice

def name : ColorChoice → String
  | auto => "auto"
  | always => "always"
  | never => "never"

def ofName? : String → Option ColorChoice
  | "auto" => some auto
  | "always" => some always
  | "never" => some never
  | _ => none

def isEnabled (choice : ColorChoice) (onTerminal : Bool) : Bool :=
  match choice with
  | auto => onTerminal
  | always => true
  | never => false

end ColorChoice

structure Config where
  /-- The directory that holds the manifest and the sources. -/
  root : String := "."
  excludedDirectories : List String := defaultExcludedDirectories
  /-- Report unused dependencies for development as well. -/
  includeDev : Bool := false
  /-- Also write the report to a file. -/
  reportFile : Bool := false
  summary : Bool := false
  color : ColorChoice := .auto
  deriving DecidableEq, Repr

namespace Config

def manifestPath (config : Config) : String := Path.join config.root "package.json"

end Config

end ImportLedger
