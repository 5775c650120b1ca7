import ImportLedger.Text.Word
import ImportLedger.Text.Split

/-! Identifier tokens of a line, and the names that a binding introduces. -/

namespace ImportLedger

open Text

/-- An identifier token with its byte offset. -/
structure Identifier where
  start : Nat
  text : String
  deriving DecidableEq, Repr

/-- Whether an identifier may begin after the given character. -/
def nameMayFollow : Option Char → Bool
  | none => true
  | some c => !isNamePart c

namespace Identifier

/-- The tokens of a text at byte offset `offset` that follows the character `before`; `inside`
says that a token is being passed over. A token that continues a word is passed over as well. -/
def scan : (inside : Bool) → (before : Option Char) → (offset : Nat) → List Char →
    List Identifier
  | _, _, _, [] => []
  | true, _, offset, c :: rest => scan (isTokenPart c) (some c) (offset + c.utf8Size) rest
  | false, before, offset, c :: rest =>
    let later := scan (isTokenStart c) (some c) (offset + c.utf8Size) rest
    if isTokenStart c && nameMayFollow before then
      ⟨offset, String.ofList (c :: rest.takeWhile isTokenPart)⟩ :: later
    else later

end Identifier

/-- The identifier tokens of a text, from left to right. -/
def identifiers (text : String) : List Identifier := Identifier.scan false none 0 text.toList

/-- Whether a text is the name of a variable. -/
def isName : List Char → Bool
  | [] => false
  | c :: rest => isNameStart c && rest.all isNamePart

/-- Blanks and the brackets of patterns. -/
def isBindingFrame (c : Char) : Bool :=
  isBlank c || c == '{' || c == '}' || c == '[' || c == ']'

/-- Drops the dots that mark a rest element. -/
def dropEllipses : List Char → List Char
  | '.' :: '.' :: '.' :: rest => dropEllipses rest
  | s => s

/-- The name that one item of a binding introduces: what stands before a default value and after
a key, its last word. -/
def itemName? (item : List Char) : Option (List Char) :=
  let target := (trim isBindingFrame item).takeWhile (· != '=')
  let local_ := (target.reverse.takeWhile (· != ':')).reverse
  ((words (trim isBindingFrame local_)).getLast?.map dropEllipses).filter isName

/-- The names that a binding introduces, in order. -/
def boundNames (binding : String) : List String :=
  ((binding.toList.splitOn ',').filterMap itemName?).map String.ofList

end ImportLedger
