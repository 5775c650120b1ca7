import ImportLedger.Json.Value

/-! Declared dependencies, and the sets of them that a manifest declares. -/

namespace ImportLedger

inductive DependencyKind
  | production
  | development
  deriving DecidableEq, Repr

namespace DependencyKind

def name : DependencyKind → String
  | production => "production"
  | development => "development"

/-- A short name for tables and messages. -/
def label : DependencyKind → String
  | production => "prod"
  | development => "dev"

end DependencyKind

/-- A package that a manifest declares; the version is the manifest's text for it. -/
structure Dependency where
  name : String
  version : String
  kind : DependencyKind
  deriving DecidableEq, Repr

namespace Dependency

/-- The package with its version. -/
def display (d : Dependency) : String := d.name ++ "@" ++ d.version

def toJson (d : Dependency) : Json :=
  .object [("name", .string d.name), ("version", .string d.version), ("type", .string d.kind.name)]

end Dependency

/-- The production dependencies, alone or together with those for development. -/
inductive DependencySets
  | production (production : List Dependency)
  | all (production dev : List Dependency)
  deriving DecidableEq, Repr

namespace DependencySets

def productionList : DependencySets → List Dependency
  | production list => list
  | all list _ => list

def devList? : DependencySets → Option (List Dependency)
  | production _ => none
  | all _ dev => some dev

/-- Every dependency, those for production first. -/
def toList (sets : DependencySets) : List Dependency :=
  sets.productionList ++ sets.devList?.getD []

def contains (sets : DependencySets) (name : String) : Bool :=
  sets.toList.any (·.name == name)

def size (sets : DependencySets) : Nat := sets.toList.length

/-- The sets without the dependencies for development. -/
def productionOnly (sets : DependencySets) : DependencySets := production sets.productionList

def toJson : DependencySets → Json
  | production list => .object [("production", .array (list.map Dependency.toJson))]
  | all list dev =>
    .object [("all", .object [("production", .array (list.map Dependency.toJson)),
      ("dev", .array (dev.map Dependency.toJson))])]

end DependencySets

end ImportLedger
