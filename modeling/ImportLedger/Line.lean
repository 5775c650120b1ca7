import ImportLedger.Text.Split

/-! Numbered lines. Splitting a text at its newlines and joining the lines again gives the text
back, carriage returns and a final newline included. -/

namespace ImportLedger

/-- A line of a file without its newline; numbers count from 1. -/
structure Line where
  text : String
  number : Nat
  deriving DecidableEq, Repr

namespace Line

/-- Numbers texts onward from a given number. -/
def numbered : Nat → List (List Char) → List Line
  | _, [] => []
  | n, t :: rest => ⟨String.ofList t, n⟩ :: numbered (n + 1) rest

theorem map_number_numbered (n : Nat) (texts : List (List Char)) :
    (numbered n texts).map (·.number) = List.range' n texts.length := by
  induction texts generalizing n with
  | nil => rfl
  | cons t rest ih => simp [numbered, ih, List.range'_succ]

/-- The lines of a text; the empty text has none. -/
def ofText (text : String) : List Line :=
  if text.toList.isEmpty then [] else numbered 1 (text.toList.splitOn '\n')

/-- The text that has the given lines. -/
def join (lines : List Line) : String := "\n".intercalate (lines.map (·.text))

end Line

end ImportLedger
