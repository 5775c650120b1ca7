import ImportLedger.Disk.Basic
import ImportLedger.Report.Text

/-! The report file: the full report without colours. -/

namespace ImportLedger.Report

def fileName : String := "depscan.txt"

/-- Writes the report file into a directory, and yields its path. -/
def saveIn (r : Report) (disk : Disk) (directory : String) :
    Except FileError (String × Disk) := do
  let path := Path.join directory fileName
  return (path, ← disk.writeFile path (Text.Utf8.encode r.plainText.toList))

/-- Writes the report file into the working directory. -/
def save (r : Report) (disk : Disk) : Except FileError (String × Disk) :=
  r.saveIn disk disk.workingPath

end ImportLedger.Report
