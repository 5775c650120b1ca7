import ImportLedger.Text.Alphabetic
import ImportLedger.Text.Blank
import ImportLedger.Text.Mark
import ImportLedger.Text.Number
import ImportLedger.Text.Recent

/-! Characters of words and of identifiers. Two notions of identifier live side by side: tokens,
which are built on words, and bound names, which have no marks and joiners in them but may have
letters and digits that words do not know yet. -/

namespace ImportLedger.Text

/-- Punctuation that joins words, the underscore among it. -/
def connectorRanges : List (Nat × Nat) :=
  [(0x5f, 0x5f), (0x203f, 0x2040), (0x2054, 0x2054), (0xfe33, 0xfe34), (0xfe4d, 0xfe4f),
   (0xff3f, 0xff3f)]

/-- The two characters that only say whether their neighbours are to be joined. -/
def joinerRanges : List (Nat × Nat) := [(0x200c, 0x200d)]

def isWord (c : Char) : Bool :=
  isAlphabetic c || isMark c || isDecimalDigit c || inRanges connectorRanges c.toNat ||
    inRanges joinerRanges c.toNat

/-- Letters of names, the newest ones among them. -/
def isNameLetter (c : Char) : Bool := isAlphabetic c || isRecentAlphabetic c

/-- Numbers of names, the newest digits among them. -/
def isNameNumber (c : Char) : Bool := isDecimalDigit c || isRecentDigit c || isOtherNumber c

/-- What an identifier token may begin with. -/
def isTokenStart (c : Char) : Bool := isLetter c || c == '_' || c == '$'

/-- What an identifier token may go on with. -/
def isTokenPart (c : Char) : Bool := isWord c || c == '$'

/-- What a bound name may begin with. -/
def isNameStart (c : Char) : Bool := isNameLetter c || c == '_' || c == '$'

/-- What a bound name may go on with, and what a token may not directly follow. -/
def isNamePart (c : Char) : Bool := isNameLetter c || isNameNumber c || c == '_' || c == '$'

theorem isWord_of_isLetter {c : Char} (h : isLetter c = true) : isWord c = true := by
  simp [isWord, isAlphabetic_of_isLetter h]

theorem not_isWord_of_isBlank {c : Char} (h : isBlank c = true) : isWord c = false := by
  have hall : ∀ r ∈ blankRanges, ∀ n ∈ List.range' r.1 (r.2 - r.1 + 1),
      (inRanges letterRanges n || inRanges otherAlphabeticRanges n || inRanges markRanges n ||
        inRanges digitRanges n || inRanges connectorRanges n || inRanges joinerRanges n) =
          false := by
    decide +kernel
  obtain ⟨r, hr, hlow, hhigh⟩ := exists_range_of_inRanges h
  exact hall r hr c.toNat (List.mem_range'_1.mpr ⟨hlow, by omega⟩)

theorem not_isBlank_of_isWord {c : Char} (h : isWord c = true) : isBlank c = false := by
  apply Bool.eq_false_iff.mpr
  intro hb
  rw [not_isWord_of_isBlank hb] at h
  cases h

theorem isTokenPart_of_isTokenStart {c : Char} (h : isTokenStart c = true) :
    isTokenPart c = true := by
  simp only [isTokenStart, Bool.or_eq_true, beq_iff_eq] at h
  rcases h with (letter | rfl) | rfl
  · simp [isTokenPart, isWord_of_isLetter letter]
  · decide
  · decide

end ImportLedger.Text
