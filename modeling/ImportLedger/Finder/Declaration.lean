import ImportLedger.Dependency
import ImportLedger.Line
import ImportLedger.Specifier
import ImportLedger.Statement.Binding

/-! Declarations: binding statements whose module belongs to a declared dependency. -/

namespace ImportLedger

structure Declaration where
  /-- The name of the dependency. -/
  name : String
  binding : String
  reference : String
  kind : BindingKind
  file : String
  line : Nat
  /-- Byte offsets of the statement's two ends in its line. -/
  start : Nat
  stop : Nat
  deriving DecidableEq, Repr

/-- The package of a specifier, if it is among the given dependencies. -/
def declaredPackage? (dependencies : List Dependency) (specifier : String) : Option String :=
  (packageName specifier).filter fun name => dependencies.any (·.name == name)

namespace Declaration

/-- The text that identifies a declaration in a report. -/
def literal (d : Declaration) : String := d.binding ++ "-" ++ d.reference

/-- Whether a byte offset of the declaring line lies inside the statement. -/
def covers (d : Declaration) (offset : Nat) : Bool := d.start ≤ offset && offset < d.stop

def onLine (file : String) (dependencies : List Dependency) (line : Line) : List Declaration :=
  (bindingStatements line.text).filterMap fun s =>
    (declaredPackage? dependencies s.specifier).map fun name =>
      { name, binding := s.binding, reference := s.reference, kind := s.kind, file,
        line := line.number, start := s.start, stop := s.stop }

end Declaration

/-- The declarations of a file, line by line and from left to right. -/
def findDeclarations (lines : List Line) (file : String) (dependencies : List Dependency) :
    List Declaration :=
  lines.flatMap (Declaration.onLine file dependencies)

end ImportLedger
