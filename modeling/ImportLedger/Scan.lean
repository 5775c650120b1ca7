import ImportLedger.Config
import ImportLedger.Finder.Missing
import ImportLedger.Finder.Require
import ImportLedger.Finder.Usage
import ImportLedger.Manifest
import ImportLedger.Report.Text

/-! Scanning a project: its manifest and its source files go in, the report comes out. Every file
is compared with all declared dependencies, whichever of them are reported as unused. -/

namespace ImportLedger

inductive ScanError
  | read (error : ReadError)
  | manifest (path : String) (error : ManifestError)
  | report (error : ReportError)
  deriving DecidableEq, Repr

namespace Scan

def readManifest (disk : Disk) (config : Config) : Except ScanError DependencySets := do
  let path := config.manifestPath
  let lines ← (readLines disk path).mapError .read
  (Manifest.search lines false).mapError (.manifest path)

def usage (declared : List Dependency) (file : SourceFile) : List UsageRecord :=
  let lines := linesOfBytes file.content
  usageRecords lines file.label (findDeclarations lines file.label declared)

def requires (declared : List Dependency) (file : SourceFile) : List RequireRecord :=
  findRequires (linesOfBytes file.content) file.label declared

def missing (sets : DependencySets) (file : SourceFile) : List MissingRecord :=
  findMissing (linesOfBytes file.content) file.label sets

/-- The report on source files. -/
def report (includeDev : Bool) (sets : DependencySets) (files : List SourceFile) :
    Except ReportError Report :=
  Report.assemble (files.flatMap (usage sets.toList))
    (if includeDev then sets else sets.productionOnly)
    (files.flatMap (requires sets.toList)) (files.flatMap (missing sets))

end Scan

/-- Scans the project at the configured root. -/
def scan (disk : Disk) (config : Config) : Except ScanError Report := do
  let sets ← Scan.readManifest disk config
  let files ← (findSources disk config.root config.excludedDirectories).mapError .read
  (Scan.report config.includeDev sets files).mapError .report

end ImportLedger
