/-! Coloured text. A document is written once, as spans with a colour or without; whether the
colours are shown is decided when it is rendered. -/

namespace ImportLedger

inductive Color
  | red
  | green
  | yellow
  | magenta
  deriving DecidableEq, Repr

/-- The terminal's sequence that begins a colour. -/
def Color.code : Color → String
  | red => "\x1b[31m"
  | green => "\x1b[32m"
  | yellow => "\x1b[33m"
  | magenta => "\x1b[35m"

/-- The terminal's sequence that goes back to its own colour. -/
def resetCode : String := "\x1b[39m"

/-- A piece of a document. -/
structure Span where
  color : Option Color
  text : String
  deriving DecidableEq, Repr

namespace Span

def plain (text : String) : Span := ⟨none, text⟩

/-- The colour of an occurrence count: nothing but the declaration, one more, or several. -/
def badgeColor : Nat → Color
  | 0 | 1 => .red
  | 2 => .yellow
  | _ => .green

def badge (count : Nat) : Span := ⟨badgeColor count, "[ " ++ toString count ++ " ]"⟩

def render (colored : Bool) (span : Span) : String :=
  match span.color, colored with
  | some c, true => c.code ++ span.text ++ resetCode
  | _, _ => span.text

end Span

def render (colored : Bool) (document : List Span) : String :=
  String.join (document.map (Span.render colored))

end ImportLedger
