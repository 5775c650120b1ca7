import ImportLedger.Text.Utf8

/-! Source languages, told from a file's extension. -/

namespace ImportLedger

inductive Language
  | javaScript
  | typeScript
  | tsx
  | jsx
  deriving DecidableEq, Repr

namespace Language

open Text.Utf8

/-- The language of an extension in capital or small letters. -/
def ofExtension? (extension : String) : Option Language :=
  -- Only ASCII capitals have one of these letters as their small letter.
  match extension.map Char.toLower with
  | "js" | "mjs" | "cjs" => some javaScript
  | "jsx" => some jsx
  | "ts" | "mts" | "cts" => some typeScript
  | "tsx" => some tsx
  | _ => none

def slash : UInt8 := 0x2f

def dot : UInt8 := 0x2e

/-- The last name of a path, unless it stands for a directory's parent. -/
def fileName? (path : Bytes) : Option Bytes :=
  ((path.splitOn slash).filter fun name => !name.isEmpty && name != [dot]).getLast?.filter
    (· != [dot, dot])

/-- What follows the last dot of a name, if the dot does not begin it. -/
def extension? (name : Bytes) : Option Bytes :=
  let last := name.reverse.takeWhile (· != dot)
  match name.reverse.dropWhile (· != dot) with
  | [] | [_] => none
  | _ => some last.reverse

def ofPathBytes? (path : Bytes) : Option Language := do
  let name ← fileName? path
  let extension ← extension? name
  ofExtension? (String.ofList (← decode? extension))

def ofPath? (path : String) : Option Language := ofPathBytes? (encode path.toList)

end Language

end ImportLedger
