import ImportLedger.Dependency
import ImportLedger.Line
import ImportLedger.Specifier
import ImportLedger.Statement.Reference

/-! Missing dependencies: packages that a file refers to and no set of the manifest declares. -/

namespace ImportLedger

structure MissingRecord where
  name : String
  file : String
  line : Nat
  deriving DecidableEq, Repr

/-- The package of a specifier, if it is neither built in nor declared. -/
def missingPackage? (sets : DependencySets) (specifier : String) : Option String :=
  (packageName specifier).filter fun name => !isBuiltin name && !sets.contains name

namespace MissingRecord

def onLine (file : String) (sets : DependencySets) (line : Line) : List MissingRecord :=
  (moduleReferences line.text).filterMap fun reference =>
    (missingPackage? sets reference.specifier).map fun name => { name, file, line := line.number }

def toJson (r : MissingRecord) : Json :=
  .object [("name", .string r.name), ("file", .string r.file), ("line", .integer r.line)]

end MissingRecord

/-- One record for each reference of a file to a missing package, line by line and from left to
right. -/
def findMissing (lines : List Line) (file : String) (sets : DependencySets) :
    List MissingRecord :=
  lines.flatMap (MissingRecord.onLine file sets)

end ImportLedger
