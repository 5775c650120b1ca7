import ImportLedger.Pattern
import ImportLedger.Statement.Occurrence

/-! The shapes of the statements that name a module. A reference names it; a binding statement
is a declaration that ends in a reference. Statements are recognised by their text alone, one
line at a time. -/

namespace ImportLedger

open Pattern Text

/-- The text around a quoted module specifier. -/
structure ReferenceShape where
  opening : Pattern
  specifier : Pattern
  closing : Pattern

/-- A declaration: the words before the bound text, the bound text, what joins it to the
reference, and the reference. -/
structure BindingShape where
  lead : Pattern
  binding : Pattern
  link : Pattern
  reference : ReferenceShape

/-- What a reader learns from a binding statement. -/
structure BindingReading where
  binding : List Char
  specifier : List Char
  reference : List Char

/-- Reads a reference and yields its specifier. -/
def ReferenceShape.read (shape : ReferenceShape) : Occurrence.Reader (List Char) := fun s =>
  (shape.opening.rests s).findSome? fun quoted =>
    (shape.specifier.rests quoted).findSome? fun closing =>
      (shape.closing.rests closing).head?.map fun rest => (consumed quoted closing, rest)

def BindingShape.read (shape : BindingShape) : Occurrence.Reader BindingReading := fun s =>
  (shape.lead.rests s).findSome? fun bound =>
    (shape.binding.rests bound).findSome? fun link =>
      (shape.link.rests link).findSome? fun reference =>
        (shape.reference.read reference).map fun (specifier, rest) =>
          (⟨consumed bound link, specifier, consumed reference rest⟩, rest)

namespace Shape

def blanks : Pattern := run isBlank

def someBlanks : Pattern := someOf isBlank

/-- An identifier as it is written in a statement. -/
def name : Pattern := one isTokenStart ++ run isTokenPart

def isPlainQuote (c : Char) : Bool := c == '\'' || c == '"'

/-- Calls may quote their argument with backticks as well. -/
def isQuote (c : Char) : Bool := isPlainQuote c || c == '`'

def braced : Pattern := literal "\x7b" ++ run (· != '}') ++ literal "\x7d"

def bracketed : Pattern := literal "[" ++ run (· != ']') ++ literal "]"

def namespaceAlias : Pattern := literal "*" ++ blanks ++ literal "as" ++ someBlanks ++ name

/-- A call of `keyword` whose argument is one quoted specifier. -/
def call (keyword : String) : ReferenceShape where
  opening := literal keyword ++ blanks ++ literal "(" ++ blanks ++ one isQuote
  specifier := someOf (!isQuote ·)
  closing := one isQuote ++ blanks ++ literal ")"

def requireCall : ReferenceShape := call "require"

def dynamicImport : ReferenceShape := call "import"

/-- A specifier between plain quotes, after the text `before`. -/
def quoted (before : Pattern) : ReferenceShape where
  opening := before ++ one isPlainQuote
  specifier := someOf (!isPlainQuote ·)
  closing := one isPlainQuote

def sideEffectImport : ReferenceShape := quoted (literal "import" ++ blanks)

def declarator : Pattern :=
  either (literal "const") (either (literal "let") (literal "var")) ++ someBlanks

def requireBinding : BindingShape where
  lead := declarator
  binding := either name (either braced bracketed)
  link := blanks ++ literal "=" ++ blanks
  reference := requireCall

def dynamicBinding : BindingShape where
  lead := declarator
  binding := either name (either braced bracketed)
  link := blanks ++ literal "=" ++ blanks ++ optional (literal "await" ++ someBlanks)
  reference := dynamicImport

def importFrom : BindingShape where
  lead := literal "import" ++ someBlanks ++ optional (literal "type" ++ someBlanks)
  binding :=
    either (name ++ optional (blanks ++ literal "," ++ blanks ++ either braced namespaceAlias))
      (either braced namespaceAlias)
  link := blanks ++ literal "from" ++ blanks
  reference := quoted (literal "")

end Shape

end ImportLedger
