import ImportLedger.Text.Word
import ImportLedger.Text.Split

/-! Where a reader finds something in a text: leftmost first, at the beginnings of words, and
without overlaps. -/

namespace ImportLedger

/-- A part of a text, its byte offset, and what was read from it. -/
structure Occurrence (α : Type) where
  start : Nat
  text : List Char
  value : α

namespace Occurrence

/-- Byte offset of the end. -/
def stop {α : Type} (o : Occurrence α) : Nat := o.start + Text.byteLength o.text

/-- Takes the beginning of a text and yields what it means and what is left. -/
abbrev Reader (α : Type) := List Char → Option (α × List Char)

/-- Whether a word may begin after the given character. -/
def wordMayFollow : Option Char → Bool
  | none => true
  | some c => !Text.isWord c

/-- Everything a reader accepts where a word may begin, for a text that follows the character
`before` and lies at byte offset `offset`. -/
def candidates {α : Type} (read : Reader α) :
    (before : Option Char) → (offset : Nat) → List Char → List (Occurrence α)
  | _, _, [] => []
  | before, offset, c :: rest =>
    let later := candidates read (some c) (offset + c.utf8Size) rest
    if wordMayFollow before then
      match read (c :: rest) with
      | some (value, left) => ⟨offset, Text.consumed (c :: rest) left, value⟩ :: later
      | none => later
    else later

/-- Keeps what begins at or after `bound`, and of two that overlap the one that comes first. -/
def leftmost {α : Type} (bound : Nat) : List (Occurrence α) → List (Occurrence α)
  | [] => []
  | o :: rest => if o.start < bound then leftmost bound rest else o :: leftmost o.stop rest

/-- The occurrences that a left-to-right search meets when it goes on after each one it finds. -/
def findAll {α : Type} (read : Reader α) (text : List Char) : List (Occurrence α) :=
  leftmost 0 (candidates read none 0 text)

end Occurrence

end ImportLedger
