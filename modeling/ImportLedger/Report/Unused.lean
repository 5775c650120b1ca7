import ImportLedger.Dependency
import ImportLedger.Finder.Usage

/-! Declared dependencies that no declaration binds. -/

namespace ImportLedger

/-- The outcome for one set of dependencies. -/
inductive Unused
  | allBound
  /-- The dependencies without a declaration, in the order of the manifest. -/
  | unbound (dependencies : List Dependency)
  deriving DecidableEq, Repr

/-- Stands for an empty list in a report. -/
def noneText : String := "None."

namespace Unused

def ofList : List Dependency → Unused
  | [] => allBound
  | list => unbound list

/-- The dependencies that none of the given names belongs to. -/
def among (bound : List String) (dependencies : List Dependency) : Unused :=
  ofList (dependencies.filter fun d => !bound.contains d.name)

def ofDeclarations (declarations : List Declaration) (dependencies : List Dependency) : Unused :=
  among (declarations.map (·.name)) dependencies

def ofUsage (usage : List UsageRecord) (dependencies : List Dependency) : Unused :=
  among (usage.map (·.name)) dependencies

def isAllBound : Unused → Bool
  | allBound => true
  | unbound _ => false

def dependencies : Unused → List Dependency
  | allBound => []
  | unbound list => list

def names (u : Unused) : List String := u.dependencies.map (·.name)

def display : Unused → String
  | allBound => noneText
  | unbound list => ", ".intercalate (list.map Dependency.display)

def toJson : Unused → Json
  | allBound => .string noneText
  | unbound list => .array (list.map Dependency.toJson)

end Unused

/-- The outcomes for each set of a manifest; the one for development only if that set is known. -/
structure UnusedDependencies where
  production : Unused
  dev : Option Unused
  deriving DecidableEq, Repr

namespace UnusedDependencies

def isEmpty (u : UnusedDependencies) : Bool :=
  u.production.isAllBound && u.dev.all Unused.isAllBound

def toJson (u : UnusedDependencies) : Json :=
  .object (("production", u.production.toJson) ::
    (u.dev.map fun dev => ("dev", dev.toJson)).toList)

end UnusedDependencies

end ImportLedger
