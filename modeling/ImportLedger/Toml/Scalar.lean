import ImportLedger.Text.Split
import ImportLedger.Toml.Text

/-! Numbers, dates and times of a configuration text. -/

namespace ImportLedger.Toml.Reader

/-- Further digits of a run. An underscore has to stand between two digits; it is left out. -/
def moreDigits (isDigit : Char → Bool) : List Char → Option (List Char × List Char)
  | '_' :: c :: rest => if isDigit c then prepend c (moreDigits isDigit rest) else none
  | c :: rest => if isDigit c then prepend c (moreDigits isDigit rest) else some ([], c :: rest)
  | [] => some ([], [])

/-- At least one digit. -/
def digitRun (isDigit : Char → Bool) : Reader (List Char)
  | c :: rest => if isDigit c then prepend c (moreDigits isDigit rest) else none
  | [] => none

/-- Whether a number is negative, and what follows its sign. -/
def sign : List Char → Bool × List Char
  | '-' :: rest => (true, rest)
  | '+' :: rest => (false, rest)
  | s => (false, s)

/-- The digits of a decimal number. It begins with zero only if it has no further digits. -/
def wholeDigits : Reader (List Char)
  | '0' :: rest => some (['0'], rest)
  | s => digitRun Char.isDigit s

def numberOf (base : Nat) (digits : List Char) : Nat :=
  digits.foldl (fun n c => base * n + (Json.Token.hexValue? c).getD 0) 0

def integerBound : Nat := Nat.pow 2 63

/-- An integer without a sign in another base. -/
def basedInteger (base : Nat) (isDigit : Char → Bool) : Reader Toml := fun s => do
  let (digits, rest) ← digitRun isDigit s
  let n := numberOf base digits
  if n < integerBound then some (.integer n, rest) else none

def integer : Reader Toml
  | '0' :: 'x' :: rest => basedInteger 16 (fun c => (Json.Token.hexValue? c).isSome) rest
  | '0' :: 'o' :: rest => basedInteger 8 (fun c => '0' ≤ c && c ≤ '7') rest
  | '0' :: 'b' :: rest => basedInteger 2 (fun c => c == '0' || c == '1') rest
  | s => do
    let (negative, rest) := sign s
    let (digits, rest) ← wholeDigits rest
    let n := numberOf 10 digits
    if n < integerBound then some (.integer (if negative then -n else n), rest)
    else if negative && n = integerBound then some (.integer (-n), rest)
    else none

/-- The least number that is rounded to an infinity. -/
def overflowBound : Nat := (Nat.pow 2 54 - 1) * Nat.pow 2 970

/-- Whether `n · 10 ^ e` is at least the bound. Far from it the powers are not computed. -/
def overflows (n : Nat) (e : Int) : Bool :=
  let places := (Nat.toDigits 10 n).length + e
  if n = 0 || places < 300 then false
  else if 320 < places then true
  else overflowBound * Nat.pow 10 (-e).toNat ≤ n * Nat.pow 10 e.toNat

def fraction (s : List Char) : Option (List Char × List Char) :=
  match s with
  | '.' :: rest => digitRun Char.isDigit rest
  | _ => some ([], s)

def exponent (s : List Char) : Option (Option Int × List Char) :=
  match s with
  | c :: rest =>
    if c = 'e' ∨ c = 'E' then do
      let (negative, rest) := sign rest
      let (digits, rest) ← digitRun Char.isDigit rest
      let n : Int := numberOf 10 digits
      some (some (if negative then -n else n), rest)
    else some (none, s)
  | [] => some (none, s)

/-- A number with a fraction or an exponent. It must not be too large, while one that is too small
counts as an infinity. -/
def decimalFloat : Reader Toml := fun s => do
  let (negative, rest) := sign s
  let (whole, rest) ← wholeDigits rest
  let (fraction, rest) ← fraction rest
  let (exponent, rest) ← exponent rest
  if fraction.isEmpty && exponent.isNone then none
  let n := numberOf 10 (whole ++ fraction)
  if !negative && overflows n (exponent.getD 0 - fraction.length) then none
  some (.float (String.ofList (Text.consumed s rest)), rest)

def specialFloat : Reader Toml := fun s =>
  match (sign s).2 with
  | 'i' :: 'n' :: 'f' :: rest | 'n' :: 'a' :: 'n' :: rest =>
    some (.float (String.ofList (Text.consumed s rest)), rest)
  | _ => none

/-- A number of exactly two digits within bounds. -/
def twoDigits (low high : Nat) : Reader Nat
  | a :: b :: rest =>
    if a.isDigit && b.isDigit then
      let n := numberOf 10 [a, b]
      if low ≤ n && n ≤ high then some (n, rest) else none
    else none
  | _ => none

def year : Reader Nat
  | a :: b :: c :: d :: rest =>
    if [a, b, c, d].all Char.isDigit then some (numberOf 10 [a, b, c, d], rest) else none
  | _ => none

def isLeapYear (year : Nat) : Bool := year % 4 == 0 && (year % 100 != 0 || year % 400 == 0)

def daysIn (year month : Nat) : Nat :=
  if month = 2 then if isLeapYear year then 29 else 28
  else if month = 4 ∨ month = 6 ∨ month = 9 ∨ month = 11 then 30
  else 31

/-- Reads a character that has to come next. -/
def expect (c : Char) : List Char → Option (List Char)
  | d :: rest => if c = d then some rest else none
  | [] => none

/-- What follows a date. -/
def afterDate? (s : List Char) : Option (List Char) := do
  let (year, s) ← year s
  let (month, s) ← twoDigits 1 12 (← expect '-' s)
  let (_, s) ← twoDigits 1 (daysIn year month) (← expect '-' s)
  some s

/-- The fraction of a second, if there is one. -/
def secondFraction (s : List Char) : List Char × List Char :=
  match s with
  | '.' :: rest =>
    match rest.takeWhile Char.isDigit with
    | [] => ([], s)
    | digits => (digits, rest.dropWhile Char.isDigit)
  | _ => ([], s)

/-- What follows a time of day. -/
def afterTime? (s : List Char) : Option (List Char) := do
  let (_, s) ← twoDigits 0 23 s
  let (_, s) ← twoDigits 0 59 (← expect ':' s)
  let (_, s) ← twoDigits 0 60 (← expect ':' s)
  some (secondFraction s).2

/-- What follows the offset of a time from the universal one. -/
def afterOffset? : List Char → Option (List Char)
  | 'Z' :: rest | 'z' :: rest => some rest
  | c :: rest =>
    if c = '+' ∨ c = '-' then do
      let (_, s) ← twoDigits 0 23 rest
      let (_, s) ← twoDigits 0 59 (← expect ':' s)
      some s
    else some (c :: rest)
  | [] => some []

/-- What follows the time of a dated time. A blank between the two is taken only if there is a
time. -/
def afterDatedTime? : List Char → Option (List Char)
  | c :: rest =>
    if c = 'T' ∨ c = 't' ∨ c = ' ' then
      match afterTime? rest with
      | some s => afterOffset? s
      | none => some (c :: rest)
    else some (c :: rest)
  | [] => some []

def dateTime : Reader Toml := fun s => do
  let rest ← (afterDate? s >>= afterDatedTime?) <|> afterTime? s
  some (.dateTime (String.ofList (Text.consumed s rest)), rest)

/-- A number, a date or a time: what may begin with a digit or a sign. -/
def numeric : Reader Toml := fun s =>
  dateTime s <|> decimalFloat s <|> specialFloat s <|> integer s

end ImportLedger.Toml.Reader
