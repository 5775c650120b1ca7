import ImportLedger.Report.Text

/-! Output formats of a report. -/

namespace ImportLedger

inductive Format
  | text
  | json
  deriving DecidableEq, Repr

namespace Format

/-- Reads the name of a format, in capital or small letters. -/
def ofName? (name : String) : Option Format :=
  match name.map Char.toLower with
  | "text" | "txt" => some text
  | "json" => some json
  | _ => none

def name : Format → String
  | text => "text"
  | json => "json"

def unknownMessage (name : String) : String :=
  "Unknown export format: '" ++ name ++ "'. Valid formats: text, json"

/-- The whole report in a format, without colours. -/
def write (format : Format) (r : Report) : String :=
  match format with
  | text => r.plainText
  | json => r.jsonText ++ "\n"

end Format

end ImportLedger
