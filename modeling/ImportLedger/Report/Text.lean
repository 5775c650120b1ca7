import ImportLedger.Order
import ImportLedger.Report.Basic
import ImportLedger.Report.Palette

/-! The report for people: in full, or with one line for each section. -/

namespace ImportLedger.Report

open ImportLedger.Span (plain)

inductive Detail
  | full
  | summary
  deriving DecidableEq, Repr

def line (spans : List Span) : List Span := spans ++ [plain "\n"]

def heading (text : String) : List Span := line [⟨some .magenta, text⟩]

def groupLines (label : String) (dependencies : List Dependency) : List Span :=
  line [plain ("  " ++ label ++ " (" ++ toString dependencies.length ++ ")")] ++
    dependencies.flatMap fun d => line [plain ("    " ++ d.display)]

def dependencyLines (sets : DependencySets) : List Span :=
  groupLines "production" sets.productionList ++
    (sets.devList?.map (groupLines "development")).getD []

def noneLine (span : Span) : List Span := line [plain "  ", span]

/-- Where a record stands. -/
def place (file : String) (line : Nat) : String := file ++ ":" ++ toString line

def usageLines (r : Report) : List Span :=
  if r.usage.isEmpty then noneLine (plain noneText)
  else r.occurrences.flatMap fun (name, total) =>
    line [plain ("  " ++ name ++ " "), .badge total] ++
      (r.usage.filter (·.name == name)).flatMap fun u =>
        line [plain ("    " ++ place u.file u.line ++ " " ++ u.declaration)]

def requireLines (r : Report) : List Span :=
  if r.requires.isEmpty then noneLine (plain noneText)
  else r.requires.flatMap fun q => line [plain ("  " ++ place q.file q.line ++ " " ++ q.statement)]

def noneSpan : Span := ⟨some .green, noneText⟩

/-- The unused dependencies of a set as `write` writes them. -/
def unusedSpan (write : Unused → String) : Unused → Span
  | .allBound => noneSpan
  | .unbound list => ⟨some .yellow, write (.unbound list)⟩

def unusedLines (r : Report) : List Span :=
  line [plain "  production: ", unusedSpan Unused.display r.unused.production] ++
    (r.unused.dev.map fun dev =>
      line [plain "  development: ", unusedSpan Unused.display dev]).getD []

def missingLines (r : Report) : List Span :=
  if r.missing.isEmpty then noneLine noneSpan
  else r.missing.flatMap fun m =>
    line [plain "  ", ⟨some .red, m.name⟩, plain (" " ++ place m.file m.line)]

def fullDocument (r : Report) : List Span :=
  heading "Dependencies" ++ dependencyLines r.dependencies ++ line [] ++
    heading "Usage" ++ r.usageLines ++ line [] ++
    heading "Requires" ++ r.requireLines ++ line [] ++
    heading "Unused dependencies" ++ r.unusedLines ++ line [] ++
    heading "Missing dependencies" ++ r.missingLines

/-- A line of the summary: what it is about, and the result. -/
def entry (label : String) (value : List Span) : List Span :=
  line (⟨some .magenta, label⟩ :: plain " " :: value)

def joinedNames (names : List String) : String := ", ".intercalate names

def unusedNamesSpan : Unused → Span := unusedSpan fun u => joinedNames u.names

def missingNames (r : Report) : List String :=
  sortBy (fun a b => decide (a ≤ b)) (r.missing.map (·.name)).eraseDups

def missingSpan (r : Report) : Span :=
  match r.missingNames with
  | [] => noneSpan
  | names => ⟨some .red, joinedNames names⟩

def summaryDocument (r : Report) : List Span :=
  let developmentCount := (r.dependencies.devList?.map fun dev =>
    ", " ++ toString dev.length ++ " development").getD ""
  let files := (r.usage.map (·.file)).eraseDups.length
  entry "Dependencies:"
      [plain (toString r.dependencies.productionList.length ++ " production" ++
        developmentCount)] ++
    entry "Usage:"
      [plain (toString r.usage.length ++ " declarations in " ++ toString files ++ " files")] ++
    entry "Requires:" [plain (toString r.requires.length)] ++
    entry "Unused production:" [unusedNamesSpan r.unused.production] ++
    (r.unused.dev.map fun dev => entry "Unused development:" [unusedNamesSpan dev]).getD [] ++
    entry "Missing:" [r.missingSpan]

def document (detail : Detail) (r : Report) : List Span :=
  match detail with
  | .full => r.fullDocument
  | .summary => r.summaryDocument

def text (detail : Detail) (colored : Bool) (r : Report) : String :=
  render colored (r.document detail)

/-- The full report without colours. -/
def plainText (r : Report) : String := r.text .full false

end ImportLedger.Report
