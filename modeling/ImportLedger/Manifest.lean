import ImportLedger.Dependency
import ImportLedger.Json.Record
import ImportLedger.Line

/-! Package manifests and the dependencies they declare. -/

namespace ImportLedger

/-- The fields of a package manifest that matter for its dependencies. -/
structure Manifest where
  name : Option String
  version : Option String
  dependencies : Option Json.Members
  devDependencies : Option Json.Members

inductive ManifestError
  | json (fault : Json.Fault)
  | blankName (kind : DependencyKind)
  deriving DecidableEq, Repr

namespace Manifest

def fields : Json.Fields :=
  [("name", .text), ("version", .text), ("dependencies", .table), ("devDependencies", .table)]

def textField (read : Json.Members) (key : String) : Option String :=
  match read.lookup key with
  | some (.string s) => some s
  | _ => none

def tableField (read : Json.Members) (key : String) : Option Json.Members :=
  match read.lookup key with
  | some (.object members) => some members
  | _ => none

def ofText (text : String) : Except Json.Fault Manifest := do
  let read ← Json.readRecord fields text
  return {
    name := textField read "name"
    version := textField read "version"
    dependencies := tableField read "dependencies"
    devDependencies := tableField read "devDependencies" }

def toJson (m : Manifest) : Json :=
  .object [
    ("name", (m.name.map Json.string).getD .null),
    ("version", (m.version.map Json.string).getD .null),
    ("dependencies", (m.dependencies.map Json.object).getD .null),
    ("devDependencies", (m.devDependencies.map Json.object).getD .null)]

/-- The text of a version: a string as it is, any other value as JSON. -/
def versionText : Json → String
  | .string s => s
  | value => value.compact

/-- The dependencies of one field, in the order of the manifest. -/
def declared (kind : DependencyKind) (members : Json.Members) :
    Except ManifestError (List Dependency) :=
  members.mapM fun (name, version) =>
    if name.toList.all Text.isBlank then .error (.blankName kind)
    else .ok ⟨name, versionText version, kind⟩

def dependencySets (m : Manifest) (productionOnly : Bool) :
    Except ManifestError DependencySets := do
  let production ← declared .production (m.dependencies.getD [])
  if productionOnly then return .production production
  return .all production (← declared .development (m.devDependencies.getD []))

/-- The dependencies that the lines of a manifest declare. -/
def search (lines : List Line) (productionOnly : Bool) : Except ManifestError DependencySets :=
  match ofText (Line.join lines) with
  | .ok m => m.dependencySets productionOnly
  | .error fault => .error (.json fault)

end Manifest

namespace ManifestError

/-- The program's own words for an error. -/
def message : ManifestError → String
  | json _ => "Failed to parse JSON:"
  | blankName kind =>
    "Invalid package.json: empty dependency name in " ++ kind.label ++ " dependencies"

end ManifestError

end ImportLedger
