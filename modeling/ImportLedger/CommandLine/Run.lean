import ImportLedger.CommandLine.Arguments
import ImportLedger.Config.File
import ImportLedger.Report.File
import ImportLedger.Scan

/-! A run of the program: arguments and a disk go in; output, exit status and the disk come out.
The texts about the use of the program are left out: the help that goes to its output, and what it
writes of arguments that it refuses to its standard error. -/

namespace ImportLedger.CommandLine

def version : String := "depscan 0.1.0\n"

structure Outcome where
  exit : Nat
  stdout : String
  stderr : String
  disk : Disk

/-- A message for the user, and the messages of what lies behind it. Without a line's end the
message leaves off where a description of faulty text would follow. -/
structure Complaint where
  message : String
  causes : List String
  deriving DecidableEq, Repr

namespace Complaint

def causeLine (number : Nat) (cause : String) : String :=
  "    " ++ toString number ++ ": " ++ cause ++ "\n"

def render (c : Complaint) : String :=
  "Error: " ++ c.message ++ match c.causes with
    | [] => "\n"
    | [cause] => "\n\nCaused by:\n    " ++ cause ++ "\n"
    | causes =>
      "\n\nCaused by:\n" ++ String.join (causes.zipIdx.map fun (cause, n) => causeLine n cause)

end Complaint

/-- What is written about an error. -/
def configErrorText : ConfigError → String
  | .file path cause =>
    Complaint.render ⟨ConfigError.message (.file path cause), [cause.message]⟩
  | .format path => "Error: " ++ ConfigError.message (.format path)

def readErrorText : ReadError → String
  | .file path cause => Complaint.render ⟨ReadError.message (.file path cause), [cause.message]⟩
  | .walk root cause =>
    Complaint.render ⟨ReadError.message (.walk root cause),
      ["IO error for operation on " ++ root ++ ": " ++ cause.message, cause.message]⟩

def manifestErrorText (path : String) : ManifestError → String
  | .json fault => "Error: " ++ path ++ ": " ++ ManifestError.message (.json fault)
  | .blankName kind =>
    let message := ManifestError.message (.blankName kind)
    Complaint.render ⟨path ++ ": " ++ message, [message]⟩

def scanErrorText : ScanError → String
  | .read error => readErrorText error
  | .manifest path error => manifestErrorText path error
  | .report error => Complaint.render ⟨error.message, []⟩

namespace Options

/-- The configuration file's settings and those of the command line. -/
def merge (options : Options) (config : Config) : Config :=
  { config with
    includeDev := config.includeDev || options.dev
    reportFile := config.reportFile || options.file
    summary := config.summary || options.summary
    excludedDirectories := config.excludedDirectories ++ options.excluded
    color := options.color.getD config.color }

/-- The configuration of a run. A configuration file that is named must be there; the root is that
of the command line in any case. -/
def configuration (options : Options) (disk : Disk) : Except ConfigError Config := do
  match options.configFile with
  | some path => return options.merge { ← Config.ofFile disk path with root := options.root }
  | none => return options.merge (← Config.load disk options.root)

/-- The report as it is printed. -/
def output (options : Options) (config : Config) (onTerminal : Bool) (r : Report) : String :=
  match options.format.getD .text with
  | .text =>
    r.text (if config.summary then .summary else .full) (config.color.isEnabled onTerminal)
  | .json => Format.json.write r

/-- The exit status of a run that has gone well. -/
def status (options : Options) (r : Report) : Nat := if options.ci && r.hasFindings then 1 else 0

/-- Prints a report and writes it to the report file if that is wanted. -/
def finish (options : Options) (disk : Disk) (onTerminal : Bool) (config : Config) (r : Report) :
    Outcome :=
  let stdout := options.output config onTerminal r
  if config.reportFile then
    match r.save disk with
    | .ok (path, disk) =>
      ⟨options.status r, stdout, "Report written to " ++ path ++ "\n", disk⟩
    | .error cause => ⟨1, stdout, Complaint.render ⟨cause.message, []⟩, disk⟩
  else ⟨options.status r, stdout, "", disk⟩

def run (options : Options) (disk : Disk) (onTerminal : Bool) : Outcome :=
  match options.configuration disk with
  | .error error => ⟨1, "", configErrorText error, disk⟩
  | .ok config =>
    match scan disk config with
    | .error error => ⟨1, "", scanErrorText error, disk⟩
    | .ok r => options.finish disk onTerminal config r

end Options

/-- Runs the program. -/
def run (arguments : List String) (disk : Disk) (onTerminal : Bool) : Outcome :=
  match Options.ofArguments arguments with
  | .error .help => ⟨0, "", "", disk⟩
  | .error .version => ⟨0, version, "", disk⟩
  | .error .invalid => ⟨2, "", "", disk⟩
  | .ok options => options.run disk onTerminal

end ImportLedger.CommandLine
