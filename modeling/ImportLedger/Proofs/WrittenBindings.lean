import ImportLedger.Proofs.BindingReadings
import ImportLedger.Proofs.ReferenceLine

/-! Binding statements as they are written: declarations and imports with all that they bind, and
blanks wherever they may stand. Each is derived from the grammar, whatever its names. -/

namespace ImportLedger

open Text

/-- Blanks that may stand between two tokens. -/
abbrev Gap := { s : List Char // Grammar.Blanks s }

/-- Blanks that must stand between two words. -/
abbrev Space := { s : List Char // Grammar.Blanks s ∧ s ≠ [] }

/-- One of the items that braces hold: a name, or a member under another name. -/
inductive BindingItem
  | name (name : VariableName)
  | renamed (member : VariableName) (before after : Space) (name : VariableName)
  | keyed (key : VariableName) (before after : Gap) (name : VariableName)

/-- Items with commas between them, and perhaps behind the last one. -/
inductive Listing (α : Type)
  | blank (gap : Gap)
  | last (before : Gap) (item : α) (after : Gap)
  | more (before : Gap) (item : α) (after : Gap) (rest : Listing α)

inductive DeclaredTarget
  | name (name : VariableName)
  | braced (items : Listing BindingItem)
  | bracketed (names : Listing VariableName)

/-- What an import binds beside a default. -/
inductive ImportedGroup
  | braced (items : Listing BindingItem)
  | all (before : Gap) (after : Space) (name : VariableName)

inductive ImportedTarget
  | default (name : VariableName)
  | both (name : VariableName) (before after : Gap) (group : ImportedGroup)
  | group (group : ImportedGroup)

/-- A specifier between two quotes of one class. -/
structure QuotedSpecifier (quotes : Char → Bool) where
  quote : Char
  specifier : List Char
  quotes_quote : quotes quote = true
  specifier_ne_nil : specifier ≠ []
  isSpecifierPart_of_mem : ∀ c ∈ specifier, isSpecifierPart c = true

/-- The brackets of a call with a quoted specifier between them. -/
structure CallArgument where
  before : Gap
  opening : Gap
  source : QuotedSpecifier Shape.isQuote
  closing : Gap

/-- The call at the end of a declaration. -/
inductive ModuleCall
  | require (argument : CallArgument)
  | dynamicImport (awaited : Option Space) (argument : CallArgument)

structure WrittenDeclaration where
  word : { word : String // word ∈ Grammar.declarators }
  space : Space
  target : DeclaredTarget
  before : Gap
  after : Gap
  call : ModuleCall

def ImportedGroup.endsInName : ImportedGroup → Bool
  | braced _ => false
  | all _ _ _ => true

def ImportedTarget.endsInName : ImportedTarget → Bool
  | default _ => true
  | both _ _ _ g => g.endsInName
  | group g => g.endsInName

structure WrittenImport where
  space : Space
  type : Option Space
  target : ImportedTarget
  before : Gap
  after : Gap
  source : QuotedSpecifier Shape.isPlainQuote
  /-- A name is kept apart from the word `from`. -/
  before_ne_nil : target.endsInName = true → before.val ≠ []

inductive WrittenBinding
  | declaration (d : WrittenDeclaration)
  | importFrom (i : WrittenImport)

/-- Several binding statements on one line. -/
inductive BindingLine
  | last (s : WrittenBinding)
  | more (s : WrittenBinding) (before after : Gap) (rest : BindingLine)

section Texts

def BindingItem.text : BindingItem → List Char
  | name n => n.chars
  | renamed m b b' n => m.chars ++ (b.val ++ ("as".toList ++ (b'.val ++ n.chars)))
  | keyed k b b' n => k.chars ++ (b.val ++ ':' :: (b'.val ++ n.chars))

def Listing.text {α : Type} (render : α → List Char) : Listing α → List Char
  | blank b => b.val
  | last b a b' => b.val ++ (render a ++ b'.val)
  | more b a b' rest => b.val ++ (render a ++ (b'.val ++ ',' :: rest.text render))

def DeclaredTarget.text : DeclaredTarget → List Char
  | name n => n.chars
  | braced items => '{' :: (items.text BindingItem.text ++ ['}'])
  | bracketed names => '[' :: (names.text VariableName.chars ++ [']'])

def ImportedGroup.text : ImportedGroup → List Char
  | braced items => '{' :: (items.text BindingItem.text ++ ['}'])
  | all b b' n => '*' :: (b.val ++ ("as".toList ++ (b'.val ++ n.chars)))

def ImportedTarget.text : ImportedTarget → List Char
  | default n => n.chars
  | both n b b' g => n.chars ++ (b.val ++ ',' :: (b'.val ++ g.text))
  | group g => g.text

def QuotedSpecifier.text {quotes : Char → Bool} (s : QuotedSpecifier quotes) : List Char :=
  s.quote :: (s.specifier ++ [s.quote])

def CallArgument.text (keyword : String) (a : CallArgument) : List Char :=
  keyword.toList ++ (a.before.val ++ '(' :: (a.opening.val ++ (a.source.text ++
    (a.closing.val ++ [')']))))

def markerText (word : String) : Option Space → List Char
  | none => []
  | some b => word.toList ++ b.val

namespace ModuleCall

def kind : ModuleCall → BindingKind
  | require _ => .require
  | dynamicImport _ _ => .dynamicImport

def specifier : ModuleCall → List Char
  | require a | dynamicImport _ a => a.source.specifier

/-- The call without the word that awaits it. -/
def reference : ModuleCall → List Char
  | require a => a.text "require"
  | dynamicImport _ a => a.text "import"

def text : ModuleCall → List Char
  | require a => a.text "require"
  | dynamicImport w a => markerText "await" w ++ a.text "import"

end ModuleCall

def WrittenDeclaration.text (d : WrittenDeclaration) : List Char :=
  d.word.val.toList ++ (d.space.val ++ (d.target.text ++ (d.before.val ++ '=' ::
    (d.after.val ++ d.call.text))))

def WrittenImport.text (i : WrittenImport) : List Char :=
  "import".toList ++ (i.space.val ++ (markerText "type" i.type ++ (i.target.text ++
    (i.before.val ++ ("from".toList ++ (i.after.val ++ i.source.text))))))

namespace WrittenBinding

def kind : WrittenBinding → BindingKind
  | declaration d => d.call.kind
  | importFrom _ => .importFrom

def binding : WrittenBinding → List Char
  | declaration d => d.target.text
  | importFrom i => i.target.text

def specifier : WrittenBinding → List Char
  | declaration d => d.call.specifier
  | importFrom i => i.source.specifier

def text : WrittenBinding → List Char
  | declaration d => d.text
  | importFrom i => i.text

def reference : WrittenBinding → List Char
  | declaration d => d.call.reference
  | importFrom i => i.text

def statementAt (offset : Nat) (s : WrittenBinding) : BindingStatement where
  kind := s.kind
  binding := String.ofList s.binding
  specifier := String.ofList s.specifier
  reference := String.ofList s.reference
  start := offset
  stop := offset + byteLength s.text

end WrittenBinding

namespace BindingLine

def separator (before after : Gap) : List Char := before.val ++ ';' :: after.val

def text : BindingLine → List Char
  | last s => s.text
  | more s b b' rest => s.text ++ (separator b b' ++ rest.text)

/-- The records of the statements of a line at a byte offset. -/
def statements (offset : Nat) : BindingLine → List BindingStatement
  | last s => [s.statementAt offset]
  | more s b b' rest =>
    s.statementAt offset :: rest.statements (offset + byteLength s.text +
      byteLength (separator b b'))

end BindingLine

end Texts

section Derivations

open Grammar

theorem VariableName.name_chars (n : VariableName) : Name n.chars :=
  .intro n.isTokenStart_first n.isTokenPart_of_mem

theorem Listing.notMem_text {α : Type} {render : α → List Char} {c : Char}
    (hblank : isBlank c = false) (hcomma : c ≠ ',') (hrender : ∀ a, c ∉ render a)
    (l : Listing α) : c ∉ l.text render := by
  have hgap (b : Gap) : c ∉ b.val := fun hc => by
    rw [b.property c hc] at hblank
    cases hblank
  induction l with
  | blank b => exact hgap b
  | last b a b' => simp [Listing.text, hgap, hrender]
  | more b a b' rest ih => simp [Listing.text, hgap, hrender, hcomma, ih]

theorem VariableName.notMem_chars {c : Char} (hc : isTokenPart c = false) (n : VariableName) :
    c ∉ n.chars := fun hm => by
  rw [n.name_chars.isTokenPart_of_mem c hm] at hc
  cases hc

theorem BindingItem.notMem_text {c : Char} (hblank : isBlank c = false)
    (htoken : isTokenPart c = false) (hcolon : c ≠ ':') (i : BindingItem) : c ∉ i.text := by
  have hname := VariableName.notMem_chars htoken
  have hspace (b : Space) : c ∉ b.val := fun hc => by
    rw [b.property.1 c hc] at hblank
    cases hblank
  have hgap (b : Gap) : c ∉ b.val := fun hc => by
    rw [b.property c hc] at hblank
    cases hblank
  have has : c ∉ "as".toList := fun hc => by
    have hall : ∀ c ∈ "as".toList, isTokenPart c = true := forall_mem_of_all (by decide)
    rw [hall c hc] at htoken
    cases htoken
  cases i with
  | name n => exact hname n
  | renamed m b b' n =>
    simp only [text, List.mem_append, not_or]
    exact ⟨hname m, hspace b, has, hspace b', hname n⟩
  | keyed k b b' n =>
    simp only [text, List.mem_append, List.mem_cons, not_or]
    exact ⟨hname k, hgap b, hcolon, hgap b', hname n⟩

theorem enclosed_items (items : Listing BindingItem) :
    Enclosed '{' '}' ('{' :: (items.text BindingItem.text ++ ['}'])) :=
  .intro (items.notMem_text (by decide) (by decide)
    (BindingItem.notMem_text (by decide) (by decide) (by decide)))

theorem DeclaredTarget.target_text (t : DeclaredTarget) : Target t.text := by
  cases t with
  | name n => exact .name n.name_chars
  | braced items => exact .braced (enclosed_items items)
  | bracketed names =>
    exact .bracketed (.intro (names.notMem_text (by decide) (by decide)
      (VariableName.notMem_chars (by decide))))

theorem ImportedGroup.group_text (g : ImportedGroup) : Group g.text := by
  cases g with
  | braced items => exact .braced (enclosed_items items)
  | all b b' n => exact .all (.intro b.property b'.property.1 b'.property.2 n.name_chars)

theorem ImportedTarget.imported_text (t : ImportedTarget) : Imported t.text := by
  cases t with
  | default n => exact .default n.name_chars
  | both n b b' g => exact .both n.name_chars b.property b'.property g.group_text
  | group g => exact .group g.group_text

theorem QuotedSpecifier.not_isQuote_of_mem {quotes : Char → Bool} (s : QuotedSpecifier quotes) :
    ∀ c ∈ s.specifier, Shape.isQuote c = false := fun c hc =>
  not_isQuote_of_isOrdinary (isOrdinary_of_isSpecifierPart (s.isSpecifierPart_of_mem c hc))

theorem quoted_call (s : QuotedSpecifier Shape.isQuote) :
    Quoted Shape.isQuote s.specifier s.text :=
  .intro s.quotes_quote s.quotes_quote s.specifier_ne_nil s.not_isQuote_of_mem

theorem quoted_import (s : QuotedSpecifier Shape.isPlainQuote) :
    Quoted Shape.isPlainQuote s.specifier s.text :=
  .intro s.quotes_quote s.quotes_quote s.specifier_ne_nil fun c hc =>
    (Bool.or_eq_false_iff.mp (s.not_isQuote_of_mem c hc)).1

theorem CallArgument.call_text (keyword : String) (a : CallArgument) :
    Call keyword a.source.specifier (a.text keyword) :=
  .intro a.before.property a.opening.property a.closing.property (quoted_call a.source)

theorem marker_markerText (word : String) (b : Option Space) : Marker word (markerText word b) := by
  cases b with
  | none => exact .absent
  | some b => exact .present b.property.1 b.property.2

/-- A written statement is derived, with what it binds and what it refers to. -/
theorem WrittenBinding.derives (s : WrittenBinding) :
    Derives s.kind s.binding s.specifier s.reference s.text := by
  cases s with
  | declaration d =>
    obtain ⟨⟨word, hw⟩, b, target, before, after, call⟩ := d
    cases call with
    | require a =>
      exact .require hw b.property.1 b.property.2 target.target_text before.property after.property
        (a.call_text "require")
    | dynamicImport w a =>
      exact .dynamicImport hw b.property.1 b.property.2 target.target_text before.property
        after.property (marker_markerText "await" w) (a.call_text "import")
  | importFrom i =>
    exact .importFrom i.space.property.1 i.space.property.2 (marker_markerText "type" i.type)
      i.target.imported_text i.before.property i.after.property (quoted_import i.source) rfl

end Derivations

end ImportLedger
