/-! Module specifiers: the package a specifier belongs to, and the built-in modules of Node.js,
which no manifest has to declare. -/

namespace ImportLedger

/-- Whether a text has a template interpolation in it. -/
def hasInterpolation : List Char → Bool
  | '$' :: '{' :: _ => true
  | _ :: rest => hasInterpolation rest
  | [] => false

/-- The text up to the first slash, or, for a scoped package, up to the second. -/
def packagePart (s : List Char) : List Char :=
  let first := s.takeWhile (· != '/')
  match s, s.dropWhile (· != '/') with
  | '@' :: _, _ :: rest => first ++ '/' :: rest.takeWhile (· != '/')
  | _, _ => first

/-- The package a specifier belongs to. Relative and absolute paths belong to none, nor do
specifiers that are only known when the program runs. -/
def packageName (specifier : String) : Option String :=
  match specifier.toList with
  | [] | '.' :: _ | '/' :: _ => none
  | s => if hasInterpolation s then none else some (String.ofList (packagePart s))

def builtins : List String :=
  ["assert", "async_hooks", "buffer", "child_process", "cluster", "console", "constants",
   "crypto", "dgram", "diagnostics_channel", "dns", "domain", "events", "fs", "http", "http2",
   "https", "inspector", "module", "net", "os", "path", "perf_hooks", "process", "punycode",
   "querystring", "readline", "repl", "stream", "string_decoder", "sys", "timers", "tls",
   "trace_events", "tty", "url", "util", "v8", "vm", "wasi", "worker_threads", "zlib"]

/-- A package that is built in, by name or by the `node:` scheme. -/
def isBuiltin (name : String) : Bool :=
  "node:".toList.isPrefixOf name.toList || builtins.contains name

end ImportLedger
