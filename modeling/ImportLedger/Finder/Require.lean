import ImportLedger.Finder.Declaration
import ImportLedger.Statement.Reference

/-! Require records: `require` calls, bound or not, of a declared dependency. -/

namespace ImportLedger

structure RequireRecord where
  name : String
  statement : String
  file : String
  line : Nat
  deriving DecidableEq, Repr

namespace RequireRecord

def onLine (file : String) (dependencies : List Dependency) (line : Line) : List RequireRecord :=
  (requireCalls line.text).filterMap fun call =>
    (declaredPackage? dependencies call.specifier).map fun name =>
      { name, statement := call.text, file, line := line.number }

def toJson (r : RequireRecord) : Json :=
  .object [("name", .string r.name), ("statement", .string r.statement), ("file", .string r.file),
    ("line", .integer r.line)]

end RequireRecord

/-- The `require` calls of a file, line by line and from left to right. -/
def findRequires (lines : List Line) (file : String) (dependencies : List Dependency) :
    List RequireRecord :=
  lines.flatMap (RequireRecord.onLine file dependencies)

end ImportLedger
