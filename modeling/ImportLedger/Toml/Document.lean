import ImportLedger.Toml.Scalar

/-! Documents: the statements of a configuration text, line by line. -/

namespace ImportLedger.Toml

namespace Reader

/-- Values that have no parts. -/
def scalar : Reader Toml := fun s =>
  match s with
  | '"' :: _ | '\'' :: _ => (string s).map fun (content, rest) => (.string content, rest)
  | 't' :: 'r' :: 'u' :: 'e' :: rest => some (.boolean true, rest)
  | 'f' :: 'a' :: 'l' :: 's' :: 'e' :: rest => some (.boolean false, rest)
  | s => numeric s

mutual

/-- A value within `level` brackets. -/
def value : (fuel level : Nat) → Reader Toml
  | 0, _, _ => none
  | fuel + 1, level, '[' :: rest =>
    if level + 1 < depthBound then items fuel (level + 1) [] rest else none
  | fuel + 1, level, '{' :: rest =>
    if level + 1 < depthBound then members fuel (level + 1) [] rest else none
  | _ + 1, _, s => scalar s

/-- The items of an array behind those already read, and its closing bracket. -/
def items : (fuel level : Nat) → (before : List Toml) → Reader Toml
  | 0, _, _, _ => none
  | fuel + 1, level, before, s =>
    match skipFiller false s with
    | ']' :: rest => some (.array before, rest)
    | s => do
      let (item, rest) ← value fuel level s
      match skipFiller false rest with
      | ']' :: rest => some (.array (before ++ [item]), rest)
      | ',' :: rest => items fuel level (before ++ [item]) rest
      | _ => none

/-- The members of an inline table behind those already read, and its closing brace. The brace
must not follow a comma. -/
def members : (fuel level : Nat) → (before : List (Key × Toml)) → Reader Toml
  | 0, _, _, _ => none
  | fuel + 1, level, before, s =>
    match skipSpaces s, before with
    | '}' :: rest, [] => some (.table .inline [], rest)
    | s, before => do
      let (key, rest) ← key s
      let (value, rest) ← value fuel level (skipSpaces (← expect '=' rest))
      let read := before ++ [(key, value)]
      match skipSpaces rest with
      | '}' :: rest => do some (.table .inline (← buildInline read), rest)
      | ',' :: rest => members fuel level read rest
      | _ => none

end

/-- A value; each character is looked at in two steps at most. -/
def anyValue : Reader Toml := fun s => value (2 * s.length + 2) 0 s

/-- A statement up to the end of its line. -/
def statement : Reader Statement := fun s =>
  match s with
  | '[' :: '[' :: rest => do
    let (key, rest) ← key rest
    let rest ← expect ']' (← expect ']' rest)
    some (.repeated key, rest)
  | '[' :: rest => do
    let (key, rest) ← key rest
    some (.header key, ← expect ']' rest)
  | s => do
    let (key, rest) ← key s
    let (value, rest) ← anyValue (skipSpaces (← expect '=' rest))
    some (.entry key value, rest)

/-- The statements of a text. Each line takes at least one character. -/
def statements : (fuel : Nat) → List Char → Option (List Statement)
  | 0, s => if s.isEmpty then some [] else none
  | fuel + 1, s =>
    match afterLine? s with
    | some [] => some []
    | some rest => statements fuel rest
    | none => do
      let (statement, rest) ← statement (skipSpaces s)
      let later ← statements fuel (← afterLine? rest)
      some (statement :: later)

def withoutByteOrderMark : List Char → List Char
  | '\ufeff' :: rest => rest
  | s => s

end Reader

/-- The entries of a document. -/
def ofText? (text : String) : Option Entries :=
  let s := Reader.withoutByteOrderMark text.toList
  Reader.statements (s.length + 1) s >>= build

end ImportLedger.Toml
