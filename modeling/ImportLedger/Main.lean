import ImportLedger.CommandLine.Run

/-! The program. What a run may look at is copied from the machine's disk first: the configuration
file, the manifest, the source files below the root, and the report file of an earlier run. -/

namespace ImportLedger.Main

open CommandLine

/-- What an entry of a directory is or holds. Only source files are read, and only directories that
are not excluded. -/
partial def capture (excluded : List String) (entry : IO.FS.DirEntry) : IO FileTree := do
  match (← entry.path.symlinkMetadata).type with
  | .dir =>
    if excluded.contains entry.fileName then return .directory []
    let entries ← (← entry.path.readDir).toList.mapM fun e =>
      return (e.fileName, ← capture excluded e)
    return .directory entries
  | .file =>
    if (Language.ofPath? entry.fileName).isSome then
      return .file (← IO.FS.readBinFile entry.path).toList
    else return .file []
  | _ => return .link ""

/-- What a path leads to, links followed, if it is there. -/
def observe (excluded : List String) (path : String) : IO (Option FileTree) := do
  let entry : IO.FS.DirEntry := { root := path, fileName := "." }
  if ← entry.path.isDir then
    let entries ← (← entry.path.readDir).toList.mapM fun e =>
      return (e.fileName, ← capture excluded e)
    return some (.directory entries)
  try return some (.file (← IO.FS.readBinFile path).toList)
  catch _ => return none

/-- The places that a path leads through, the last one first. -/
def places (disk : Disk) (path : String) : List (List String) :=
  let start := if Path.isAbsolute path then [] else disk.workingDirectory
  (Path.steps path).foldl (fun passed step =>
    let place := passed.headD start
    match step with
    | .here | .slash => passed
    | .up => place.dropLast :: passed
    | .enter name => (place ++ [name]) :: passed) [start]

/-- Puts a node where a path leads to, and directories on the way. -/
def install (disk : Disk) (path : String) (node : FileTree) : Disk :=
  let passed := places disk path
  let onTheWay (tree : FileTree) (place : List String) : FileTree :=
    match tree.at? place with
    | some (.directory _) => tree
    | _ => tree.put place (.directory [])
  { disk with tree := (passed.tail.reverse.foldl onTheWay disk.tree).put (passed.headD []) node }

/-- Copies what a path leads to. -/
def copy (excluded : List String) (disk : Disk) (path : String) : IO Disk := do
  return ((← observe excluded path).map (install disk path)).getD disk

/-- Copies what a run with the given options may look at. -/
def copyFor (options : Options) (disk : Disk) : IO Disk := do
  let configPath := options.configFile.getD (Path.join options.root Config.fileName)
  let disk ← copy [] disk configPath
  match options.configuration disk with
  | .error _ => return disk
  | .ok config =>
    let disk ← copy config.excludedDirectories disk config.root
    [config.manifestPath, configPath, Report.fileName].foldlM (copy []) disk

/-- A disk with nothing but the working directory. -/
def emptyDisk (workingDirectory : List String) : Disk where
  tree := (FileTree.directory []).put workingDirectory (.directory [])
  workingDirectory := workingDirectory

end ImportLedger.Main

open ImportLedger ImportLedger.Main in
def main (arguments : List String) : IO UInt32 := do
  let here := (← IO.currentDir).components.filter (!·.isEmpty)
  let stdout ← IO.getStdout
  let before ← match CommandLine.Options.ofArguments arguments with
    | .ok options => copyFor options (emptyDisk here)
    | .error _ => pure (emptyDisk here)
  let outcome := CommandLine.run arguments before (← stdout.isTty)
  match before.readFile Report.fileName, outcome.disk.readFile Report.fileName with
  | .ok old, .ok new =>
    if old != new then IO.FS.writeBinFile Report.fileName ⟨new.toArray⟩
  | .error _, .ok new => IO.FS.writeBinFile Report.fileName ⟨new.toArray⟩
  | _, _ => pure ()
  stdout.putStr outcome.stdout
  (← IO.getStderr).putStr outcome.stderr
  return outcome.exit.toUInt32
