import ImportLedger.Json.Token
import ImportLedger.Toml.Value

/-! The texts of a configuration: blanks and comments, strings in their four notations, keys. -/

namespace ImportLedger.Toml

/-- A reader takes the beginning of a text and yields its meaning and what is left. -/
abbrev Reader (α : Type) := List Char → Option (α × List Char)

namespace Reader

def isSpace (c : Char) : Bool := c == ' ' || c == '\t'

/-- Control characters other than the tabulator stand nowhere, not even in comments. -/
def isPrintable (c : Char) : Bool := c == '\t' || (0x20 ≤ c.toNat && c.toNat != 0x7f)

def skipSpaces (s : List Char) : List Char := s.dropWhile isSpace

def skipComment : List Char → List Char
  | '#' :: rest => rest.dropWhile isPrintable
  | s => s

/-- What follows a line's end, if the text is at one. -/
def afterNewline? : List Char → Option (List Char)
  | '\n' :: rest | '\r' :: '\n' :: rest => some rest
  | _ => none

/-- What follows a line of which only blanks and a comment are left. -/
def afterLine? (s : List Char) : Option (List Char) :=
  match skipComment (skipSpaces s) with
  | [] => some []
  | s => afterNewline? s

/-- Skips blanks, line ends and comments; `inComment` says that a comment has begun. -/
def skipFiller : (inComment : Bool) → List Char → List Char
  | _, [] => []
  | _, '\n' :: rest => skipFiller false rest
  | _, '\r' :: '\n' :: rest => skipFiller false rest
  | true, c :: rest => if isPrintable c then skipFiller true rest else c :: rest
  | false, c :: rest =>
    if isSpace c then skipFiller false rest
    else if c = '#' then skipFiller true rest
    else c :: rest

/-- The characters that have an escape of one letter. -/
def simpleEscape? : Char → Option Char
  | '"' => some '"'
  | '\\' => some '\\'
  | 'b' => some '\x08'
  | 'f' => some '\x0c'
  | 'n' => some '\n'
  | 'r' => some '\r'
  | 't' => some '\t'
  | _ => none

/-- The character of a code point; surrogates are none. -/
def scalarValue? (n : Nat) : Option Char := if n.isValidChar then some (Char.ofNat n) else none

def hexNumber? (digits : List Char) : Option Nat :=
  digits.foldlM (fun n c => (Json.Token.hexValue? c).map (16 * n + ·)) 0

/-- The character that an escape with hexadecimal digits stands for. -/
def hexEscape? (digits : List Char) : Option Char := hexNumber? digits >>= scalarValue?

def prepend (c : Char) (read : Option (List Char × List Char)) : Option (List Char × List Char) :=
  read.map fun (s, rest) => (c :: s, rest)

/-- The rest of a string on one line in which backslashes escape. -/
def basicString : Reader (List Char)
  | '"' :: rest => some ([], rest)
  | '\\' :: 'u' :: a :: b :: c :: d :: rest => do
    prepend (← hexEscape? [a, b, c, d]) (basicString rest)
  | '\\' :: 'U' :: a :: b :: c :: d :: e :: f :: g :: h :: rest => do
    prepend (← hexEscape? [a, b, c, d, e, f, g, h]) (basicString rest)
  | '\\' :: c :: rest => do prepend (← simpleEscape? c) (basicString rest)
  | c :: rest => if isPrintable c then prepend c (basicString rest) else none
  | [] => none

/-- After the three quotes that may end a long string: up to two more belong to its content. -/
def extraQuotes (quote : Char) : List Char → List Char × List Char
  | a :: b :: rest =>
    if a = quote then if b = quote then ([a, b], rest) else ([a], b :: rest)
    else ([], a :: b :: rest)
  | [a] => if a = quote then ([a], []) else ([], [a])
  | [] => ([], [])

/-- Whether a backslash in front of this text hides a line's end. -/
def hidesNewline (s : List Char) : Bool := (afterNewline? (skipSpaces s)).isSome

/-- The rest of a long string in which backslashes escape. After a hidden line's end, `trimming`,
blanks and further line ends are hidden as well. -/
def longBasicString : (trimming : Bool) → Reader (List Char)
  | _, '"' :: '"' :: '"' :: rest => some (extraQuotes '"' rest)
  | trimming, '\n' :: rest =>
    if trimming then longBasicString true rest else prepend '\n' (longBasicString false rest)
  | trimming, '\r' :: '\n' :: rest =>
    if trimming then longBasicString true rest else prepend '\n' (longBasicString false rest)
  | _, '\\' :: 'u' :: a :: b :: c :: d :: rest => do
    prepend (← hexEscape? [a, b, c, d]) (longBasicString false rest)
  | _, '\\' :: 'U' :: a :: b :: c :: d :: e :: f :: g :: h :: rest => do
    prepend (← hexEscape? [a, b, c, d, e, f, g, h]) (longBasicString false rest)
  | _, '\\' :: c :: rest =>
    if hidesNewline (c :: rest) then longBasicString true (c :: rest)
    else do prepend (← simpleEscape? c) (longBasicString false rest)
  | trimming, c :: rest =>
    if trimming && isSpace c then longBasicString true rest
    else if isPrintable c then prepend c (longBasicString false rest)
    else none
  | _, [] => none

/-- The rest of a string on one line in which nothing is escaped. -/
def literalString (s : List Char) : Option (List Char × List Char) :=
  match s.dropWhile fun c => isPrintable c && c != '\'' with
  | '\'' :: rest => some (s.takeWhile fun c => isPrintable c && c != '\'', rest)
  | _ => none

/-- The rest of a long string in which nothing is escaped. -/
def longLiteralString : Reader (List Char)
  | '\'' :: '\'' :: '\'' :: rest => some (extraQuotes '\'' rest)
  | '\n' :: rest => prepend '\n' (longLiteralString rest)
  | '\r' :: '\n' :: rest => prepend '\n' (longLiteralString rest)
  | c :: rest => if isPrintable c then prepend c (longLiteralString rest) else none
  | [] => none

/-- A line's end right after the opening quotes of a long string is not part of it. -/
def withoutFirstNewline (s : List Char) : List Char := (afterNewline? s).getD s

/-- A string in any notation. -/
def string : Reader String := fun s =>
  (match s with
  | '"' :: '"' :: '"' :: rest => longBasicString false (withoutFirstNewline rest)
  | '"' :: rest => basicString rest
  | '\'' :: '\'' :: '\'' :: rest => longLiteralString (withoutFirstNewline rest)
  | '\'' :: rest => literalString rest
  | _ => none).map fun (content, rest) => (String.ofList content, rest)

def isBareKey (c : Char) : Bool := c.isAlphanum || c == '_' || c == '-'

/-- One name of a key, bare or as a string on one line. -/
def keyName : Reader String := fun s =>
  match s with
  | '"' :: rest => (basicString rest).map fun (name, rest) => (String.ofList name, rest)
  | '\'' :: rest => (literalString rest).map fun (name, rest) => (String.ofList name, rest)
  | s =>
    match s.takeWhile isBareKey with
    | [] => none
    | name => some (String.ofList name, s.dropWhile isBareKey)

/-- Nested values, and the names of a key, stay below this number. -/
def depthBound : Nat := 80

/-- The names of a dotted key behind those already read, at most `bound` more. -/
def keyNames : (bound : Nat) → (path : List String) → Reader Key
  | 0, _, _ => none
  | bound + 1, path, s =>
    match keyName (skipSpaces s) with
    | none => none
    | some (name, rest) =>
      match skipSpaces rest with
      | '.' :: rest => keyNames bound (path ++ [name]) rest
      | rest => some (⟨path, name⟩, rest)

/-- A key with the blanks around it. -/
def key : Reader Key := keyNames (depthBound - 1) []

end Reader

end ImportLedger.Toml
