import ImportLedger.Disk.Basic
import ImportLedger.Language
import ImportLedger.Line
import ImportLedger.Order

/-! Source files: reading them as lines, and finding them below a directory. -/

namespace ImportLedger

open Text.Utf8 (Bytes)

inductive ReadError
  | file (path : String) (cause : FileError)
  | walk (root : String) (cause : FileError)
  deriving DecidableEq, Repr

namespace ReadError

def message : ReadError → String
  | file path cause => "Failed to read file " ++ path ++ ": " ++ cause.message
  | walk root cause =>
    "Failed to walk directory " ++ root ++ ": IO error for operation on " ++ root ++ ": " ++
      cause.message

end ReadError

/-- The lines of a file's content. -/
def linesOfBytes (content : Bytes) : List Line :=
  Line.ofText (String.ofList (Text.Utf8.decodeLossy content))

def readLines (disk : Disk) (path : String) : Except ReadError (List Line) :=
  match disk.readFile path with
  | .ok content => .ok (linesOfBytes content)
  | .error cause => .error (.file path cause)

/-- Directories that are passed over unless others are named. -/
def defaultExcludedDirectories : List String :=
  ["node_modules", ".git", "dist", "build", ".next", "coverage", ".turbo"]

/-- A source file with the names that lead to it from the root of a search. -/
structure SourceFile where
  relative : List String
  content : Bytes
  deriving DecidableEq, Repr

namespace SourceFile

/-- The path of the file below the root, with slashes between the names. -/
def label (file : SourceFile) : String := "/".intercalate file.relative

/-- The path of the file as it is shown. A root that is a file itself is shown as it was given. -/
def path (root : String) (file : SourceFile) : String :=
  if file.relative.isEmpty then root else Path.join root file.label

def below (name : String) (file : SourceFile) : SourceFile :=
  { file with relative := name :: file.relative }

mutual

/-- The source files that an entry of a directory is or holds. -/
def ofEntry (excluded : List String) (name : String) : FileTree → List SourceFile
  | .file content => if (Language.ofPath? name).isSome then [⟨[name], content⟩] else []
  | .link _ => []
  | .directory entries =>
    if excluded.contains name then [] else (ofEntries excluded entries).map (below name)

def ofEntries (excluded : List String) : List (String × FileTree) → List SourceFile
  | [] => []
  | (name, node) :: rest => ofEntry excluded name node ++ ofEntries excluded rest

end

/-- The order of paths, name by name. -/
def le (a b : SourceFile) : Bool := !decide (b.relative < a.relative)

end SourceFile

/-- The source files below a root in the order of their paths. Excluded directories are not
entered, whatever the root's own name is; links are followed for the root alone. -/
def findSources (disk : Disk) (root : String) (excluded : List String) :
    Except ReadError (List SourceFile) := do
  let walk {α : Type} : Except FileError α → Except ReadError α
    | .ok a => .ok a
    | .error cause => .error (.walk root cause)
  let below (entries : FileTree.Entries) : List SourceFile :=
    sortBy SourceFile.le (SourceFile.ofEntries excluded entries)
  match ← walk (disk.lookup .inspect root) with
  | .file content => return if (Language.ofPath? root).isSome then [⟨[], content⟩] else []
  | .directory entries => return below entries
  | .link _ => return below (← walk (disk.lookup .read root)).entries

/-- The paths of the source files below a root. -/
def findPaths (disk : Disk) (root : String) (excluded : List String) :
    Except ReadError (List String) :=
  (findSources disk root excluded).map (·.map (SourceFile.path root))

end ImportLedger
