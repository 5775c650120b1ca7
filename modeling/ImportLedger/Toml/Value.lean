/-! Values of a configuration text, and how its statements build tables. A table may be opened by
one header only, dotted keys may go on only with tables that dotted keys began, and nothing is
ever overwritten. -/

namespace ImportLedger

/-- How a table came to be. -/
inductive TableOrigin
  /-- By a header of its own. -/
  | header
  /-- On the way to another table's header. -/
  | implied
  /-- By a dotted key. -/
  | dotted
  /-- Between braces. -/
  | inline
  deriving DecidableEq, Repr

inductive Toml
  | string (s : String)
  | integer (n : Int)
  | boolean (b : Bool)
  /-- A number with a fraction or an exponent, an infinity or no number, as it is written. -/
  | float (text : String)
  /-- A date, a time or both, as it is written. -/
  | dateTime (text : String)
  | array (items : List Toml)
  | table (origin : TableOrigin) (entries : List (String × Toml))
  /-- The tables of repeated headers, the last one first. -/
  | elements (tables : List (List (String × Toml)))
  deriving Repr

namespace Toml

abbrev Entries := List (String × Toml)

/-- Gives a key that is there another value. -/
def Entries.set (entries : Entries) (key : String) (value : Toml) : Entries :=
  entries.map fun (k, v) => if k = key then (k, value) else (k, v)

/-- Adds a key and its value behind tables that dotted keys may go on with. `open_` says whether
the entries at hand may be added to. -/
def Entries.addDotted (open_ : Bool) (path : List String) (key : String) (value : Toml)
    (entries : Entries) : Option Entries :=
  match path with
  | [] =>
    if open_ && (entries.lookup key).isNone then some (entries ++ [(key, value)]) else none
  | name :: path =>
    match entries.lookup name with
    | none =>
      (addDotted true path key value []).map fun inner => entries ++ [(name, table .dotted inner)]
    | some (table .dotted inner) =>
      (addDotted true path key value inner).map fun inner =>
        set entries name (table .dotted inner)
    | some (table .implied inner) =>
      (addDotted false path key value inner).map fun inner =>
        set entries name (table .implied inner)
    | some (elements (last :: before)) =>
      (addDotted false path key value last).map fun last =>
        set entries name (elements (last :: before))
    | some _ => none

/-- Changes the table that a header's path leads to. Of repeated headers the last one counts;
tables on the way come to be as needed. -/
def Entries.change (f : Entries → Option Entries) (path : List String) (entries : Entries) :
    Option Entries :=
  match path with
  | [] => f entries
  | name :: path =>
    match entries.lookup name with
    | none => (change f path []).map fun inner => entries ++ [(name, table .implied inner)]
    | some (table .inline _) => none
    | some (table origin inner) =>
      (change f path inner).map fun inner => set entries name (table origin inner)
    | some (elements (last :: before)) =>
      (change f path last).map fun last => set entries name (elements (last :: before))
    | some _ => none

/-- Opens the table of a header. -/
def Entries.openTable (name : String) (entries : Entries) : Option Entries :=
  match entries.lookup name with
  | none => some (entries ++ [(name, table .header [])])
  | some (table .implied inner) => some (set entries name (table .header inner))
  | some _ => none

/-- Opens one more table of a repeated header. -/
def Entries.openElement (name : String) (entries : Entries) : Option Entries :=
  match entries.lookup name with
  | none => some (entries ++ [(name, elements [[]])])
  | some (elements tables) => some (set entries name (elements ([] :: tables)))
  | some _ => none

/-- A key, possibly dotted: the keys on the way, and the last one. -/
structure Key where
  path : List String
  last : String
  deriving DecidableEq, Repr

def Key.names (key : Key) : List String := key.path ++ [key.last]

/-- A statement of a document. -/
inductive Statement
  | entry (key : Key) (value : Toml)
  | header (key : Key)
  | repeated (key : Key)
  deriving Repr

/-- A document in the making: its entries, and the path of the table last opened. -/
structure Draft where
  entries : Entries
  current : List String

def Draft.add (draft : Draft) : Statement → Option Draft
  | .entry key value =>
    (draft.entries.change (Entries.addDotted true key.path key.last value) draft.current).map
      (⟨·, draft.current⟩)
  | .header key =>
    (draft.entries.change (Entries.openTable key.last) key.path).map (⟨·, key.names⟩)
  | .repeated key =>
    (draft.entries.change (Entries.openElement key.last) key.path).map (⟨·, key.names⟩)

/-- The entries that a document's statements make. -/
def build (statements : List Statement) : Option Entries :=
  (statements.foldlM Draft.add ⟨[], []⟩).map (·.entries)

/-- The entries of an inline table. -/
def buildInline (members : List (Key × Toml)) : Option Entries :=
  members.foldlM (fun entries (key, value) => entries.addDotted true key.path key.last value) []

end Toml

end ImportLedger
