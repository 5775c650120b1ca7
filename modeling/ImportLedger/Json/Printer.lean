import ImportLedger.Json.Shortest
import ImportLedger.Json.Value

/-! Writing JSON: without any blanks, or over several lines with two blanks for each level. -/

namespace ImportLedger.Json

/-- Characters of a string that have a short escape. -/
def shortEscape? : Char → Option Char
  | '"' => some '"'
  | '\\' => some '\\'
  | '\x08' => some 'b'
  | '\x0c' => some 'f'
  | '\n' => some 'n'
  | '\r' => some 'r'
  | '\t' => some 't'
  | _ => none

def hexDigit (n : Nat) : Char := Nat.digitChar (n % 16)

/-- A character as it stands in a string: only quotes, backslashes and control characters are
escaped. -/
def escaped (c : Char) : List Char :=
  match shortEscape? c with
  | some e => ['\\', e]
  | none =>
    if c.toNat < 0x20 then ['\\', 'u', '0', '0', hexDigit (c.toNat / 16), hexDigit c.toNat]
    else [c]

def quoted (s : String) : List Char := '"' :: s.toList.flatMap escaped ++ ['"']

def integerText (n : Int) : List Char :=
  match n with
  | .ofNat m => Nat.toDigits 10 m
  | .negSucc m => '-' :: Nat.toDigits 10 (m + 1)

/-- A decimal number is written positionally when its first digit stands for a power of ten from
−5 to 15, and with an exponent otherwise. There is always a point or an exponent. -/
def decimalText (d : Shortest.Decimal) : List Char :=
  let digits := Nat.toDigits 10 d.digits
  let lead : Int := d.exponent + digits.length - 1
  if -5 ≤ lead ∧ lead < 0 then
    ['0', '.'] ++ List.replicate (-lead - 1).toNat '0' ++ digits
  else if 0 ≤ lead ∧ lead ≤ 15 then
    let whole := lead.toNat + 1
    if digits.length ≤ whole then
      digits ++ List.replicate (whole - digits.length) '0' ++ ['.', '0']
    else digits.take whole ++ '.' :: digits.drop whole
  else
    let sign := if lead < 0 then [] else ['+']
    digits.take 1 ++ (if digits.length = 1 then [] else '.' :: digits.drop 1) ++
      'e' :: sign ++ integerText lead

/-- A double with the fewest digits that read back. -/
def realText (x : Float) : List Char :=
  let bits := x.toBits.toNat
  let magnitude := bits % Nat.pow 2 63
  (if bits = magnitude then [] else ['-']) ++
    if magnitude = 0 then ['0', '.', '0']
    else decimalText (Shortest.Binary.ofBits magnitude).shortest

/-- Texts one after another with a separator between them. -/
def joined (separator : List Char) : List (List Char) → List Char
  | [] => []
  | [t] => t
  | t :: rest => t ++ separator ++ joined separator rest

/-- What a value without parts is written as. -/
def scalarText : Json → List Char
  | null => "null".toList
  | bool true => "true".toList
  | bool false => "false".toList
  | integer n => integerText n
  | real x => realText x
  | string s => quoted s
  | array _ | object _ => []

mutual

/-- The value on one line, without blanks. -/
def compactText : Json → List Char
  | array items => '[' :: joined [','] (compactItems items) ++ [']']
  | object members => '{' :: joined [','] (compactMembers members) ++ ['}']
  | value => scalarText value

def compactItems : List Json → List (List Char)
  | [] => []
  | v :: rest => compactText v :: compactItems rest

def compactMembers : List (String × Json) → List (List Char)
  | [] => []
  | (k, v) :: rest => (quoted k ++ ':' :: compactText v) :: compactMembers rest

end

/-- A line break, and the blanks of a level. -/
def lineBreak (level : Nat) : List Char := '\n' :: List.replicate (2 * level) ' '

/-- Parts of a value on lines of their own between two brackets; without parts the brackets
touch. -/
def block (level : Nat) (opening closing : Char) : List (List Char) → List Char
  | [] => [opening, closing]
  | parts =>
    opening :: lineBreak (level + 1) ++ joined (',' :: lineBreak (level + 1)) parts ++
      lineBreak level ++ [closing]

mutual

/-- The value over several lines, the first of them at the given level. -/
def prettyText (level : Nat) : Json → List Char
  | array items => block level '[' ']' (prettyItems (level + 1) items)
  | object members => block level '{' '}' (prettyMembers (level + 1) members)
  | value => scalarText value

def prettyItems (level : Nat) : List Json → List (List Char)
  | [] => []
  | v :: rest => prettyText level v :: prettyItems level rest

def prettyMembers (level : Nat) : List (String × Json) → List (List Char)
  | [] => []
  | (k, v) :: rest => (quoted k ++ ':' :: ' ' :: prettyText level v) :: prettyMembers level rest

end

def compact (value : Json) : String := String.ofList (compactText value)

def pretty (value : Json) : String := String.ofList (prettyText 0 value)

end ImportLedger.Json
