import ImportLedger.Disk.Tree

/-! A disk: a tree of files with a working directory. Paths are followed name by name, through
links, from the top or from the working directory. -/

namespace ImportLedger

open Text.Utf8 (Bytes)

/-- Why a path leads nowhere, or to something of the wrong kind. -/
inductive FileError
  | notFound
  | notDirectory
  | isDirectory
  | linkLoop
  /-- The content is no text. -/
  | notText
  deriving DecidableEq, Repr

def FileError.message : FileError → String
  | notFound => "No such file or directory (os error 2)"
  | notDirectory => "Not a directory (os error 20)"
  | isDirectory => "Is a directory (os error 21)"
  | linkLoop => "Too many levels of symbolic links (os error 40)"
  | notText => "stream did not contain valid UTF-8"

namespace Path

/-- One step along a path. -/
inductive Step
  | here
  | up
  | enter (name : String)
  /-- A slash at the end, which asks for a directory. -/
  | slash
  deriving DecidableEq, Repr

def isAbsolute (path : String) : Bool := path.toList.head? = some '/'

def endsInSlash (path : String) : Bool := path.toList.getLast? = some '/'

def Step.ofName : List Char → Step
  | ['.'] => here
  | ['.', '.'] => up
  | name => enter (String.ofList name)

def steps (path : String) : List Step :=
  ((path.toList.splitOn '/').filter (!·.isEmpty)).map Step.ofName ++
    if endsInSlash path then [.slash] else []

/-- A path with a name or a relative path behind it. -/
def join (base relative : String) : String :=
  if base = "" then relative
  else if endsInSlash base then base ++ relative
  else base ++ "/" ++ relative

end Path

structure Disk where
  tree : FileTree
  /-- The names on the way to the working directory. -/
  workingDirectory : List String

namespace Disk

/-- A place that a path leads to, as names from the top. -/
inductive Target
  | found (place : List String)
  /-- Nothing is there, but its directory exists. -/
  | vacant (place : List String)
  deriving DecidableEq, Repr

/-- What a path is followed for. -/
inductive Purpose
  /-- To look at what stands at its end, be it a link. -/
  | inspect
  /-- To read what its end, if a link, leads to. -/
  | read
  /-- To write a file there. A name that has a slash behind it is none of a file. -/
  | write
  deriving DecidableEq, Repr

/-- How many links a path may lead through. -/
def linkBound : Nat := 40

/-- Follows the steps of a path from a directory whose names are given last first. -/
def follow (tree : FileTree) (purpose : Purpose) (links : Nat) (place : List String)
    (steps : List Path.Step) : Except FileError Target :=
  match steps with
  | [] => .ok (.found place.reverse)
  | step :: rest =>
    match tree.at? place.reverse with
    | some (.directory entries) =>
      match step with
      | .here | .slash => follow tree purpose links place rest
      | .up => follow tree purpose links place.tail rest
      | .enter name =>
        if purpose = .write ∧ rest = [.slash] then .error .isDirectory
        else
          match entries.lookup name with
          | none => if rest.isEmpty then .ok (.vacant (name :: place).reverse) else .error .notFound
          | some (.link target) =>
            if rest.isEmpty ∧ purpose = .inspect then .ok (.found (name :: place).reverse)
            else
              match links with
              | 0 => .error .linkLoop
              | links + 1 =>
                follow tree purpose links (if Path.isAbsolute target then [] else place)
                  (Path.steps target ++ rest)
          | some _ => follow tree purpose links (name :: place) rest
    | _ => .error .notDirectory
termination_by (links, steps.length)

def resolve (disk : Disk) (purpose : Purpose) (path : String) : Except FileError Target :=
  if path = "" then .error .notFound
  else
    follow disk.tree purpose linkBound
      (if Path.isAbsolute path then [] else disk.workingDirectory.reverse) (Path.steps path)

/-- What stands at the end of a path. -/
def lookup (disk : Disk) (purpose : Purpose) (path : String) : Except FileError FileTree := do
  match ← disk.resolve purpose path with
  | .vacant _ => .error .notFound
  | .found place =>
    match disk.tree.at? place with
    | some node => .ok node
    | none => .error .notFound

def readFile (disk : Disk) (path : String) : Except FileError Bytes := do
  match ← disk.lookup .read path with
  | .file content => .ok content
  | _ => .error .isDirectory

/-- The content of a file that is text throughout. -/
def readText (disk : Disk) (path : String) : Except FileError String := do
  match Text.Utf8.decode? (← disk.readFile path) with
  | some text => .ok (String.ofList text)
  | none => .error .notText

def isFile (disk : Disk) (path : String) : Bool :=
  match disk.lookup .read path with
  | .ok (.file _) => true
  | _ => false

/-- Writes a file, in the place of the one that is there. -/
def writeFile (disk : Disk) (path : String) (content : Bytes) : Except FileError Disk := do
  let put (place : List String) : Disk :=
    { disk with tree := disk.tree.put place (.file content) }
  match ← disk.resolve .write path with
  | .vacant place => .ok (put place)
  | .found place =>
    match disk.tree.at? place with
    | some (.file _) => .ok (put place)
    | _ => .error .isDirectory

/-- The working directory as an absolute path. -/
def workingPath (disk : Disk) : String := "/" ++ "/".intercalate disk.workingDirectory

end Disk

end ImportLedger
