import ImportLedger.Text.Blank

/-! Trimming and splitting of texts given as lists of characters. -/

namespace ImportLedger.Text

/-- Number of bytes that the characters take when they are written out. -/
def byteLength : List Char → Nat
  | [] => 0
  | c :: s => c.utf8Size + byteLength s

@[simp] theorem byteLength_nil : byteLength [] = 0 := rfl

@[simp] theorem byteLength_cons (c : Char) (s : List Char) :
    byteLength (c :: s) = c.utf8Size + byteLength s := rfl

@[simp] theorem byteLength_append (s t : List Char) :
    byteLength (s ++ t) = byteLength s + byteLength t := by
  induction s with
  | nil => simp
  | cons c s ih => simp [ih, Nat.add_assoc]

/-- Drops the characters of a class at both ends. -/
def trim (drops : Char → Bool) (s : List Char) : List Char :=
  ((s.dropWhile drops).reverse.dropWhile drops).reverse

/-- The maximal runs of characters that are not blank. -/
def words (s : List Char) : List (List Char) := (s.splitOnP isBlank).filter (!·.isEmpty)

/-- The part of a text before what is left of it. -/
def consumed (s rest : List Char) : List Char := s.take (s.length - rest.length)

@[simp] theorem consumed_append (t rest : List Char) : consumed (t ++ rest) rest = t := by
  simp [consumed]

end ImportLedger.Text
