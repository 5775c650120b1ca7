import ImportLedger.Finder.Missing
import ImportLedger.Finder.Require
import ImportLedger.Json.Printer
import ImportLedger.Report.Unused

/-! The report of a scan, and its form in JSON. -/

namespace ImportLedger

structure Report where
  dependencies : DependencySets
  usage : List UsageRecord
  requires : List RequireRecord
  unused : UnusedDependencies
  missing : List MissingRecord
  deriving DecidableEq, Repr

/-- A record that no finder makes. -/
inductive ReportError
  | unnamedUsage (file : String)
  | unplacedUsage (name : String)
  | incompleteRequire (file : String)
  deriving DecidableEq, Repr

namespace ReportError

def message (e : ReportError) : String :=
  "Malformed report input: " ++ match e with
    | unnamedUsage file => "usage record in " ++ file ++ " has an empty name or declaration"
    | unplacedUsage name => "usage record for " ++ name ++ " has line 0"
    | incompleteRequire file => "require record in " ++ file ++ " is incomplete"

end ReportError

def UsageRecord.check (r : UsageRecord) : Except ReportError Unit :=
  if r.name = "" ∨ r.declaration = "" then .error (.unnamedUsage r.file)
  else if r.line = 0 then .error (.unplacedUsage r.name)
  else .ok ()

def RequireRecord.check (r : RequireRecord) : Except ReportError Unit :=
  if r.name = "" ∨ r.statement = "" ∨ r.line = 0 then .error (.incompleteRequire r.file)
  else .ok ()

namespace Report

/-- Brings records together. The unused dependencies follow from the usage ledger. -/
def assemble (usage : List UsageRecord) (sets : DependencySets) (requires : List RequireRecord)
    (missing : List MissingRecord) : Except ReportError Report := do
  usage.forM UsageRecord.check
  requires.forM RequireRecord.check
  return {
    dependencies := sets, usage, requires, missing
    unused := {
      production := .ofUsage usage sets.productionList
      dev := sets.devList?.map (.ofUsage usage) } }

/-- Whether anything is unused or missing. -/
def hasFindings (r : Report) : Bool := !r.unused.isEmpty || !r.missing.isEmpty

/-- The dependencies of the usage ledger in the order in which they first appear, with their
total occurrences. -/
def occurrences (r : Report) : List (String × Nat) :=
  (r.usage.map (·.name)).eraseDups.map fun name =>
    (name, ((r.usage.filter (·.name == name)).map (·.occurrences)).foldr (· + ·) 0)

def toJson (r : Report) : Json :=
  .object [("dependencies", r.dependencies.toJson),
    ("usage", .array (r.usage.map UsageRecord.toJson)),
    ("requires", .array (r.requires.map RequireRecord.toJson)),
    ("unused", r.unused.toJson),
    ("missing", .array (r.missing.map MissingRecord.toJson))]

/-- The report as JSON over several lines. -/
def jsonText (r : Report) : String := r.toJson.pretty

end Report

end ImportLedger
