import ImportLedger.Finder.Declaration
import ImportLedger.Identifier

/-! The usage ledger: how often the names of each declaration occur in its file. -/

namespace ImportLedger

structure UsageRecord where
  name : String
  declaration : String
  file : String
  /-- The line of the declaration. -/
  line : Nat
  /-- The declaration itself and every other occurrence of a name that it binds. -/
  occurrences : Nat
  deriving DecidableEq, Repr

namespace UsageRecord

def toJson (r : UsageRecord) : Json :=
  .object [("name", .string r.name), ("declaration", .string r.declaration),
    ("file", .string r.file), ("line", .integer r.line), ("occurrences", .integer r.occurrences)]

end UsageRecord

namespace Declaration

/-- The tokens of a line that refer to a declaration: names that it binds, outside its own
statement. -/
def referencesOn (d : Declaration) (line : Line) : List Identifier :=
  let names := boundNames d.binding
  (identifiers line.text).filter fun i =>
    !(line.number == d.line && d.covers i.start) && names.contains i.text

def references (d : Declaration) (lines : List Line) : Nat :=
  (lines.map fun line => (d.referencesOn line).length).foldr (· + ·) 0

end Declaration

/-- One record for each declaration of a file, in the same order. -/
def usageRecords (lines : List Line) (label : String) (declarations : List Declaration) :
    List UsageRecord :=
  declarations.map fun d =>
    { name := d.name, declaration := d.literal, file := label, line := d.line,
      occurrences := 1 + d.references lines }

end ImportLedger
