import ImportLedger.Text.Utf8

/-! Trees of files, directories and symbolic links. Names are texts: a name that is no valid UTF-8
has no place in a tree. Every place has a content of its own, which may be read and written: there
are no hard links and no permissions. -/

namespace ImportLedger

open Text.Utf8 (Bytes)

inductive FileTree
  | file (content : Bytes)
  | link (target : String)
  | directory (entries : List (String × FileTree))
  deriving Repr

namespace FileTree

abbrev Entries := List (String × FileTree)

/-- What a directory holds; anything else holds nothing. -/
def entries : FileTree → Entries
  | directory entries => entries
  | _ => []

/-- Puts an entry in the place of the one with the same name, or behind all others. -/
def Entries.put (entries : Entries) (name : String) (node : FileTree) : Entries :=
  match entries with
  | [] => [(name, node)]
  | (n, t) :: rest =>
    if n = name then (n, node) :: rest else (n, t) :: Entries.put rest name node

/-- What stands at a place, given by the names on the way to it. -/
def at? : FileTree → List String → Option FileTree
  | tree, [] => some tree
  | directory entries, name :: rest =>
    match entries.lookup name with
    | some child => child.at? rest
    | none => none
  | _, _ :: _ => none

/-- Puts something at a place. Directories on the way are made as needed, in the place of what is
no directory. -/
def put (tree : FileTree) (place : List String) (node : FileTree) : FileTree :=
  match place with
  | [] => node
  | name :: rest =>
    let child := (tree.entries.lookup name).getD (directory [])
    directory (Entries.put tree.entries name (child.put rest node))

/-- Takes away what stands at a place. -/
def erase (tree : FileTree) : List String → FileTree
  | [] => directory []
  | [name] => directory (tree.entries.filter (·.1 != name))
  | name :: rest =>
    match tree.entries.lookup name with
    | some child => directory (Entries.put tree.entries name (child.erase rest))
    | none => tree

end FileTree

end ImportLedger
