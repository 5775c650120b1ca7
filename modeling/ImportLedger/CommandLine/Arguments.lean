import ImportLedger.Config
import ImportLedger.Report.Format

/-! The arguments of the command line, read from left to right. The first fault, or the request
for help or for the version, ends the reading. -/

namespace ImportLedger.CommandLine

/-- Arguments that are given at most once and have no value. -/
inductive Switch
  | dev
  | file
  | summary
  | ci
  | help
  | version
  deriving DecidableEq, Repr

/-- Arguments that have a value. -/
inductive Setting
  | config
  | exclude
  | format
  | color
  deriving DecidableEq, Repr

structure Options where
  path : Option String := none
  configFile : Option String := none
  dev : Bool := false
  /-- Further directories to be passed over. -/
  excluded : List String := []
  file : Bool := false
  summary : Bool := false
  format : Option Format := none
  color : Option ColorChoice := none
  /-- Whether findings make the program fail. -/
  ci : Bool := false
  deriving DecidableEq, Repr

/-- Why the arguments do not ask for a scan. -/
inductive Refusal
  | invalid
  | help
  | version
  deriving DecidableEq, Repr

namespace Switch

def ofLong? : String → Option Switch
  | "dev" => some dev
  | "file" => some file
  | "summary" => some summary
  | "ci" => some ci
  | "help" => some help
  | "version" => some version
  | _ => none

def ofShort? : Char → Option Switch
  | 'd' => some dev
  | 'f' => some file
  | 's' => some summary
  | 'h' => some help
  | 'V' => some version
  | _ => none

def set (switch : Switch) (options : Options) : Except Refusal Options :=
  match switch with
  | dev => if options.dev then .error .invalid else .ok { options with dev := true }
  | file => if options.file then .error .invalid else .ok { options with file := true }
  | summary => if options.summary then .error .invalid else .ok { options with summary := true }
  | ci => if options.ci then .error .invalid else .ok { options with ci := true }
  | help => .error .help
  | version => .error .version

end Switch

namespace Setting

def ofLong? : String → Option Setting
  | "config" => some config
  | "exclude" => some exclude
  | "format" => some format
  | "color" => some color
  | _ => none

def ofShort? : Char → Option Setting
  | 'c' => some config
  | 'e' => some exclude
  | _ => none

/-- Directories to exclude may be given again and again, the other settings once. -/
def set (setting : Setting) (value : String) (options : Options) : Except Refusal Options :=
  match setting with
  | config =>
    if options.configFile.isSome ∨ value = "" then .error .invalid
    else .ok { options with configFile := some value }
  | exclude => .ok { options with excluded := options.excluded ++ [value] }
  | format =>
    match options.format, Format.ofName? value with
    | none, some f => .ok { options with format := some f }
    | _, _ => .error .invalid
  | color =>
    match options.color, ColorChoice.ofName? value with
    | none, some c => .ok { options with color := some c }
    | _, _ => .error .invalid

end Setting

namespace Options

/-- The one argument that is no option: the project's directory. -/
def setPath (options : Options) (path : String) : Except Refusal Options :=
  if options.path.isSome ∨ path = "" then .error .invalid
  else .ok { options with path := some path }

/-- Reads short options behind one dash. A setting takes what follows it, with or without an equals
sign, or else waits for the next argument. -/
def takeShort (options : Options) : List Char → Except Refusal (Options × Option Setting)
  | [] => .ok (options, none)
  | c :: rest =>
    match Switch.ofShort? c, Setting.ofShort? c with
    | some switch, _ => do takeShort (← switch.set options) rest
    | none, none => .error .invalid
    | none, some setting =>
      match rest with
      | [] => .ok (options, some setting)
      | '=' :: value | value => do return (← setting.set (String.ofList value) options, none)

/-- Reads a long option behind its two dashes. -/
def takeLong (options : Options) (text : List Char) :
    Except Refusal (Options × Option Setting) :=
  let name := String.ofList (text.takeWhile (· != '='))
  match Switch.ofLong? name, Setting.ofLong? name, text.dropWhile (· != '=') with
  | some switch, _, [] => do return (← switch.set options, none)
  | none, some setting, [] => .ok (options, some setting)
  | none, some setting, _ :: value => do
    return (← setting.set (String.ofList value) options, none)
  | _, _, _ => .error .invalid

/-- Reads arguments; `waiting` is a setting whose value comes next. Its value must not look like
an option; a lone dash does not. -/
def take (options : Options) (waiting : Option Setting) : List String → Except Refusal Options
  | [] => if waiting.isSome then .error .invalid else .ok options
  | argument :: rest =>
    match waiting, argument.toList with
    | some _, '-' :: _ :: _ => .error .invalid
    | some setting, _ => do take (← setting.set argument options) none rest
    | none, ['-', '-'] => rest.foldlM setPath options
    | none, '-' :: '-' :: text => do
      let (options, waiting) ← takeLong options text
      take options waiting rest
    | none, '-' :: c :: text => do
      let (options, waiting) ← takeShort options (c :: text)
      take options waiting rest
    | none, _ => do take (← options.setPath argument) none rest

def ofArguments (arguments : List String) : Except Refusal Options := take {} none arguments

/-- The project's directory; the working directory unless given. -/
def root (options : Options) : String := options.path.getD "."

end Options

end ImportLedger.CommandLine
