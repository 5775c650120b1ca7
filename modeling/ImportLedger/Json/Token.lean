import ImportLedger.Json.Number
import ImportLedger.Json.Printer
import ImportLedger.Text.Split

/-! Tokens of a JSON text. A string or a number may be faulty only where its value is kept, or
faulty in another way where it is passed over, so a token says what it is in either case. -/

namespace ImportLedger.Json

/-- Why a text is not accepted. -/
inductive Fault
  /-- The text ended too early. -/
  | ended
  /-- The text is not JSON. -/
  | malformed
  /-- The text is JSON and means something else than what was asked for. -/
  | mismatched
  deriving DecidableEq, Repr

inductive Token
  | beginArray
  | endArray
  | beginObject
  | endObject
  | comma
  | colon
  /-- The content where it is kept, and whether it may be passed over. -/
  | string (kept : Except Fault String) (skipped : Except Fault Unit)
  /-- The value where it is kept, and whether it may be passed over. -/
  | scalar (kept : Except Fault Json) (skipped : Except Fault Unit)
  /-- A character that begins no token. -/
  | stray

namespace Token

def hexValue? (c : Char) : Option Nat :=
  if '0' ≤ c ∧ c ≤ '9' then some (c.toNat - '0'.toNat)
  else if 'a' ≤ c ∧ c ≤ 'f' then some (c.toNat - 'a'.toNat + 10)
  else if 'A' ≤ c ∧ c ≤ 'F' then some (c.toNat - 'A'.toNat + 10)
  else none

/-- The number that four hexadecimal digits write. -/
def unit? (a b c d : Char) : Option Nat := do
  return 4096 * (← hexValue? a) + 256 * (← hexValue? b) + 16 * (← hexValue? c) + (← hexValue? d)

/-- What is wrong with the rest of a text where four digits were to stand and fewer than four
characters are left. It takes four bytes to see that they are no digits. -/
def shortUnit (rest : List Char) : Fault :=
  if Text.byteLength rest < 4 then .ended else .malformed

def simpleEscape? : Char → Option Char
  | '"' => some '"'
  | '\\' => some '\\'
  | '/' => some '/'
  | 'b' => some '\x08'
  | 'f' => some '\x0c'
  | 'n' => some '\n'
  | 'r' => some '\r'
  | 't' => some '\t'
  | _ => none

def isLeadingSurrogate (n : Nat) : Bool := 0xd800 ≤ n && n ≤ 0xdbff

def isTrailingSurrogate (n : Nat) : Bool := 0xdc00 ≤ n && n ≤ 0xdfff

/-- The character beyond the first plane that two surrogates stand for. -/
def pairValue (leading trailing : Nat) : Char :=
  Char.ofNat (0x10000 + 0x400 * (leading - 0xd800) + (trailing - 0xdc00))

/-- What is wrong with the rest of a text where the second of two surrogates was to stand. -/
def missingPartner : List Char → Fault
  | [] | ['\\'] => .ended
  | '\\' :: 'u' :: rest => shortUnit rest
  | _ => .malformed

/-- The content of a string after its opening quote, and what follows the closing one. -/
def keepString : List Char → Except Fault (List Char × List Char)
  | [] | ['\\'] => .error .ended
  | '"' :: rest => .ok ([], rest)
  | '\\' :: 'u' :: a :: b :: c :: d :: rest =>
    match unit? a b c d with
    | none => .error .malformed
    | some n =>
      if isTrailingSurrogate n then .error .malformed
      else if isLeadingSurrogate n then
        match rest with
        | '\\' :: 'u' :: e :: f :: g :: h :: rest =>
          match unit? e f g h with
          | none => .error .malformed
          | some m =>
            if isTrailingSurrogate m then
              (keepString rest).map fun (s, left) => (pairValue n m :: s, left)
            else .error .malformed
        | rest => .error (missingPartner rest)
      else (keepString rest).map fun (s, left) => (Char.ofNat n :: s, left)
  | '\\' :: 'u' :: rest => .error (shortUnit rest)
  | '\\' :: c :: rest =>
    match simpleEscape? c with
    | some e => (keepString rest).map fun (s, left) => (e :: s, left)
    | none => .error .malformed
  | c :: rest =>
    if c.toNat < 0x20 then .error .malformed
    else (keepString rest).map fun (s, left) => (c :: s, left)

/-- What follows the closing quote of a string whose content does not matter. -/
def skipString : List Char → Except Fault (List Char)
  | [] | ['\\'] => .error .ended
  | '"' :: rest => .ok rest
  | '\\' :: 'u' :: a :: b :: c :: d :: rest =>
    if (unit? a b c d).isSome then skipString rest else .error .malformed
  | '\\' :: 'u' :: rest => .error (shortUnit rest)
  | '\\' :: c :: rest => if (simpleEscape? c).isSome then skipString rest else .error .malformed
  | c :: rest => if c.toNat < 0x20 then .error .malformed else skipString rest

/-- The token of a string after its opening quote. -/
def stringToken (s : List Char) : Token × List Char :=
  let kept := (keepString s).map fun (content, _) => String.ofList content
  match skipString s with
  | .ok rest => (string kept (.ok ()), rest)
  | .error fault => (string kept (.error fault), [])

/-- How a number ends that lacks a digit: by the end of the text, which counts as malformed
where the number is passed over, or by another character. -/
def lacksDigit : List Char → Token
  | [] => scalar (.error .ended) (.error .malformed)
  | _ => scalar (.error .malformed) (.error .malformed)

/-- The fraction of a number and what follows; `none` when the digits after the point lack. -/
def fraction (s : List Char) : Except Token (List Char × List Char) :=
  match s with
  | '.' :: rest =>
    match rest.takeWhile Char.isDigit with
    | [] => .error (lacksDigit rest)
    | digits => .ok (digits, rest.dropWhile Char.isDigit)
  | _ => .ok ([], s)

/-- The sign and digits of an exponent, and what follows. -/
def exponent (s : List Char) : Except Token (Option (Bool × List Char) × List Char) :=
  match s with
  | c :: rest =>
    if c = 'e' ∨ c = 'E' then
      let (down, rest) := match rest with
        | '-' :: rest => (true, rest)
        | '+' :: rest => (false, rest)
        | rest => (false, rest)
      match rest.takeWhile Char.isDigit with
      | [] => .error (lacksDigit rest)
      | digits => .ok (some (down, digits), rest.dropWhile Char.isDigit)
    else .ok (none, s)
  | [] => .ok (none, s)

/-- The token of a number after its sign, and what follows; the text is given up after a fault. -/
def numberToken (negative : Bool) (s : List Char) : Token × List Char :=
  match s.takeWhile Char.isDigit with
  | [] => (lacksDigit s, [])
  | '0' :: _ :: _ => (scalar (.error .malformed) (.error .malformed), [])
  | whole =>
    match fraction (s.dropWhile Char.isDigit) with
    | .error token => (token, [])
    | .ok (fraction, rest) =>
      match exponent rest with
      | .error token => (token, [])
      | .ok (exponent, rest) =>
        let value := match Numeral.value? ⟨negative, whole, fraction, exponent⟩ with
          | some v => .ok v
          | none => .error .malformed
        (scalar value (.ok ()), rest)

/-- The token of a fixed word of which the characters `word` are still to come. -/
def wordToken (value : Json) : (word : List Char) → List Char → Token × List Char
  | [], rest => (scalar (.ok value) (.ok ()), rest)
  | _, [] => (scalar (.error .ended) (.error .ended), [])
  | w :: word, c :: rest =>
    if w = c then wordToken value word rest
    else (scalar (.error .malformed) (.error .malformed), [])

def isSpace (c : Char) : Bool := c == ' ' || c == '\n' || c == '\t' || c == '\r'

/-- The token that begins with a character that is not a space, and what follows it. -/
def begun (c : Char) (rest : List Char) : Token × List Char :=
  match c with
  | '[' => (beginArray, rest)
  | ']' => (endArray, rest)
  | '{' => (beginObject, rest)
  | '}' => (endObject, rest)
  | ',' => (comma, rest)
  | ':' => (colon, rest)
  | '"' => stringToken rest
  | '-' => numberToken true rest
  | 'n' => wordToken .null ['u', 'l', 'l'] rest
  | 't' => wordToken (.bool true) ['r', 'u', 'e'] rest
  | 'f' => wordToken (.bool false) ['a', 'l', 's', 'e'] rest
  | c => if c.isDigit then numberToken false (c :: rest) else (stray, rest)

theorem length_le_of_skipString {s rest : List Char} (h : skipString s = .ok rest) :
    rest.length ≤ s.length := by
  fun_induction skipString s <;> simp_all <;> omega

theorem length_dropWhile_le (p : Char → Bool) (s : List Char) :
    (s.dropWhile p).length ≤ s.length :=
  (List.dropWhile_sublist p).length_le

theorem length_le_of_fraction {s left digits : List Char} (h : fraction s = .ok (digits, left)) :
    left.length ≤ s.length := by
  unfold fraction at h
  split at h
  · rename_i rest
    have := length_dropWhile_le Char.isDigit rest
    split at h <;> simp_all
    omega
  · simp_all

theorem length_le_of_exponent {s left : List Char} {e : Option (Bool × List Char)}
    (h : exponent s = .ok (e, left)) : left.length ≤ s.length := by
  unfold exponent at h
  split at h
  · rename_i c rest
    split at h
    · dsimp only at h
      split at h
      · simp at h
      · simp only [Except.ok.injEq, Prod.mk.injEq] at h
        rw [← h.2]
        refine Nat.le_trans (length_dropWhile_le _ _) ?_
        split <;> simp <;> omega
    · simp_all
  · simp_all

theorem length_wordToken_le (value : Json) (word rest : List Char) :
    (wordToken value word rest).2.length ≤ rest.length := by
  induction word generalizing rest with
  | nil => simp [wordToken]
  | cons w word ih =>
    cases rest with
    | nil => simp [wordToken]
    | cons c rest =>
      by_cases h : w = c
      · simp only [wordToken, h, if_true, List.length_cons]
        exact Nat.le_trans (ih rest) (Nat.le_succ _)
      · simp [wordToken, h]

theorem length_numberToken_le (negative : Bool) (s : List Char) :
    (numberToken negative s).2.length ≤ (s.dropWhile Char.isDigit).length := by
  unfold numberToken
  split
  · simp
  · simp
  · split
    · simp
    · rename_i h
      have := length_le_of_fraction h
      split
      · simp
      · rename_i h'
        exact Nat.le_trans (length_le_of_exponent h') this

theorem length_begun_le (c : Char) (rest : List Char) : (begun c rest).2.length ≤ rest.length := by
  unfold begun
  split <;> try exact Nat.le_refl _
  · unfold stringToken
    split
    · exact length_le_of_skipString (by assumption)
    · simp
  · exact Nat.le_trans (length_numberToken_le _ _) (length_dropWhile_le _ _)
  · exact length_wordToken_le _ _ _
  · exact length_wordToken_le _ _ _
  · exact length_wordToken_le _ _ _
  · split
    · rename_i digit
      refine Nat.le_trans (length_numberToken_le _ _) ?_
      rw [List.dropWhile_cons_of_pos digit]
      exact length_dropWhile_le _ _
    · exact Nat.le_refl _

/-- The tokens of a text. What follows a faulty token is of no account. -/
def ofText (s : List Char) : List Token :=
  match s with
  | [] => []
  | c :: rest =>
    if isSpace c then ofText rest
    else (begun c rest).1 :: ofText (begun c rest).2
termination_by s.length
decreasing_by
  · simp
  · exact Nat.lt_succ_of_le (length_begun_le c rest)

end Token

end ImportLedger.Json
