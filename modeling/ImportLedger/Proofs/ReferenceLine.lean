import ImportLedger.Proofs.Records
import ImportLedger.Proofs.ReferenceKinds

/-! Lines of statements that refer to modules. Each statement is found once, and
nothing else is, unless a specifier ends in the word `import`: from there a search
reads on to the next quote of the line. -/

namespace ImportLedger

open Pattern Text Occurrence

/-- The name of a variable, as it is written in a statement. -/
structure VariableName where
  first : Char
  rest : List Char
  isTokenStart_first : isTokenStart first = true
  isTokenPart_of_mem : ∀ c ∈ rest, isTokenPart c = true

namespace VariableName

def chars (name : VariableName) : List Char := name.first :: name.rest

theorem describes_chars (name : VariableName) : Shape.name.Describes name.chars :=
  .seq (.one name.isTokenStart_first) (.run name.isTokenPart_of_mem)

end VariableName

inductive StatementForm
  | requireCall
  | boundRequire (name : VariableName)
  | importFrom (name : VariableName)
  | sideEffect
  | dynamicImport

/-- What specifiers are made of: words, and the punctuation of paths and scopes. -/
def isSpecifierPart (c : Char) : Bool :=
  isWord c || c == '@' || c == '/' || c == '.' || c == '-'

/-- A statement that refers to a module. -/
structure ReferenceStatement where
  form : StatementForm
  quote : Char
  specifier : List Char
  isPlainQuote_quote : Shape.isPlainQuote quote = true
  specifier_ne_nil : specifier ≠ []
  isSpecifierPart_of_mem : ∀ c ∈ specifier, isSpecifierPart c = true

namespace StatementForm

def kind : StatementForm → ReferenceKind
  | requireCall | boundRequire _ => .require
  | importFrom _ => .importFrom
  | sideEffect => .sideEffect
  | dynamicImport => .dynamicImport

/-- What stands before the keyword of the reference. -/
def lead : StatementForm → List Char
  | boundRequire name => "const ".toList ++ name.chars ++ " = ".toList
  | requireCall | importFrom _ | sideEffect | dynamicImport => []

/-- The keyword and what stands between it and the quoted specifier. -/
def head : StatementForm → List Char
  | requireCall | boundRequire _ => "require(".toList
  | importFrom name => "import ".toList ++ name.chars ++ " from ".toList
  | sideEffect => "import ".toList
  | dynamicImport => "import(".toList

def closing : StatementForm → List Char
  | requireCall | boundRequire _ | dynamicImport => ")".toList
  | importFrom _ | sideEffect => []

end StatementForm

namespace ReferenceStatement

/-- The statement from its keyword on. -/
def reference (s : ReferenceStatement) : List Char :=
  s.form.head ++ s.quote :: (s.specifier ++ s.quote :: s.form.closing)

def text (s : ReferenceStatement) : List Char := s.form.lead ++ s.reference

/-- Several statements on one line. -/
def line : List ReferenceStatement → List Char
  | [] => []
  | [s] => s.text
  | s :: next :: rest => s.text ++ ("; ".toList ++ line (next :: rest))

/-- Where the keyword of a statement stands, and the specifier, for a statement at a byte
offset. -/
def referenceAt (offset : Nat) (s : ReferenceStatement) : ModuleReference :=
  ⟨offset + byteLength s.form.lead, String.ofList s.specifier⟩

/-- The references of a line at a byte offset, one for each of its statements. -/
def references : (offset : Nat) → List ReferenceStatement → List ModuleReference
  | _, [] => []
  | offset, s :: rest =>
    referenceAt offset s :: references (offset + byteLength s.text + byteLength "; ".toList) rest

end ReferenceStatement

/-- Whether the last word of a text is `import`, with nothing after it. -/
def endsInImport (s : List Char) : Bool := (s.reverse.takeWhile isWord).reverse == "import".toList

/-- Whether a line's references can be told: of all statements but the last, those that are not
side-effect imports have specifiers that do not end in `import`. -/
def Separable (l : List ReferenceStatement) : Prop :=
  ∀ s ∈ l.dropLast, s.form.kind = .sideEffect ∨ endsInImport s.specifier = false

instance (l : List ReferenceStatement) : Decidable (Separable l) :=
  inferInstanceAs (Decidable (∀ s ∈ l.dropLast, _ ∨ _))

section Characters

theorem endsInImport_append {before : Option Char} {p : List Char}
    (h : wordMayFollow (lastOr before p) = true) : endsInImport (p ++ "import".toList) = true := by
  have hword : ∀ c ∈ "import".toList.reverse, isWord c = true := forall_mem_of_all (by decide)
  have hstop : p.reverse.takeWhile isWord = [] := by
    rcases List.eq_nil_or_concat p with rfl | ⟨p', c, rfl⟩
    · rfl
    · rw [List.concat_eq_append] at h ⊢
      rw [lastOr_concat] at h
      have hc : isWord c = false := by simpa [wordMayFollow] using h
      simp [hc]
  rw [endsInImport, List.reverse_append, List.takeWhile_append_of_pos hword, hstop]
  decide

theorem exists_of_endsInImport {s : List Char} (h : endsInImport s = true) :
    ∃ p, s = p ++ "import".toList ∧
      ∀ before, wordMayFollow before = true → wordMayFollow (lastOr before p) = true := by
  have hword : (s.reverse.takeWhile isWord).reverse = "import".toList := eq_of_beq h
  have hs : s = (s.reverse.dropWhile isWord).reverse ++ (s.reverse.takeWhile isWord).reverse := by
    rw [← List.reverse_append, List.takeWhile_append_dropWhile, List.reverse_reverse]
  refine ⟨_, hword ▸ hs, fun before hb => ?_⟩
  cases hd : s.reverse.dropWhile isWord with
  | nil => exact hb
  | cons c r =>
    have hne := List.head?_dropWhile_not isWord s.reverse
    rw [hd] at hne
    have hc : isWord c = false := by simpa using hne
    rw [List.reverse_cons, lastOr_concat]
    simp [wordMayFollow, hc]

/-- The characters of the statements, their quotes apart. -/
def isOrdinary (c : Char) : Bool :=
  isTokenPart c || [' ', '=', '(', ')', ';', '@', '/', '.', '-'].contains c

theorem not_isQuote_of_isOrdinary {c : Char} (h : isOrdinary c = true) :
    Shape.isQuote c = false := by
  apply Shape.not_isQuote_of_ne <;> rintro rfl <;> exact absurd h (by decide)

theorem plainText_of_isOrdinary {s : List Char}
    (h : ∀ c ∈ s, isOrdinary c = true ∨ Shape.isPlainQuote c = true) : PlainText s := by
  intro c hc
  constructor <;> rintro rfl <;> exact absurd (h _ hc) (by decide)

theorem isOrdinary_of_isSpecifierPart {c : Char} (h : isSpecifierPart c = true) :
    isOrdinary c = true := by
  simp only [isSpecifierPart, Bool.or_eq_true, beq_iff_eq] at h
  rcases h with (((hword | rfl) | rfl) | rfl) | rfl
  · simp [isOrdinary, isTokenPart, hword]
  all_goals decide

theorem not_isBlank_of_isSpecifierPart {c : Char} (h : isSpecifierPart c = true) :
    isBlank c = false := by
  cases hb : isBlank c with
  | false => rfl
  | true =>
    simp only [isSpecifierPart, not_isWord_of_isBlank hb, Bool.false_or, Bool.or_eq_true,
      beq_iff_eq] at h
    rcases h with ((rfl | rfl) | rfl) | rfl <;> exact absurd hb (by decide)

theorem VariableName.isOrdinary_of_mem (name : VariableName) :
    ∀ c ∈ name.chars, isOrdinary c = true := by
  have hpart : ∀ c, isTokenPart c = true → isOrdinary c = true := fun c hc => by
    simp [isOrdinary, hc]
  have hwithin : Shape.name.Within isOrdinary :=
    ⟨fun c hc => hpart c (isTokenPart_of_isTokenStart hc), hpart⟩
  exact hwithin.forall_mem name.describes_chars

theorem StatementForm.isOrdinary_of_mem (form : StatementForm) :
    ∀ c ∈ form.lead ++ (form.head ++ form.closing), isOrdinary c = true := by
  have hname (a b : String) (name : VariableName) (ha : a.toList.all isOrdinary = true)
      (hb : b.toList.all isOrdinary = true) :
      ∀ c ∈ a.toList ++ name.chars ++ b.toList, isOrdinary c = true := by
    intro c hc
    rcases List.mem_append.mp hc with hc | hc
    · rcases List.mem_append.mp hc with hc | hc
      · exact List.all_eq_true.mp ha c hc
      · exact name.isOrdinary_of_mem c hc
    · exact List.all_eq_true.mp hb c hc
  cases form with
  | requireCall => exact forall_mem_of_all (by decide)
  | boundRequire name =>
    intro c hc
    rcases List.mem_append.mp hc with hc | hc
    · exact hname "const " " = " name (by decide) (by decide) c hc
    · have hrest : ∀ c ∈ "require(".toList ++ ")".toList, isOrdinary c = true :=
        forall_mem_of_all (by decide)
      exact hrest c hc
  | importFrom name =>
    intro c hc
    have hc : c ∈ [] ++ ("import ".toList ++ name.chars ++ " from ".toList ++ []) := hc
    rw [List.nil_append, List.append_nil] at hc
    exact hname "import " " from " name (by decide) (by decide) c hc
  | sideEffect => exact forall_mem_of_all (by decide)
  | dynamicImport => exact forall_mem_of_all (by decide)

theorem ReferenceStatement.isOrdinary_of_mem_specifier (s : ReferenceStatement) :
    ∀ c ∈ s.specifier, isOrdinary c = true :=
  fun c hc => isOrdinary_of_isSpecifierPart (s.isSpecifierPart_of_mem c hc)

theorem ReferenceStatement.isOrdinary_of_mem_text (s : ReferenceStatement) :
    ∀ c ∈ s.text, isOrdinary c = true ∨ Shape.isPlainQuote c = true := by
  intro c hc
  have hform := s.form.isOrdinary_of_mem c
  have hspec := s.isOrdinary_of_mem_specifier c
  have hquote := s.isPlainQuote_quote
  simp only [text, reference, List.mem_append, List.mem_cons] at hc hform
  rcases hc with hc | hc | rfl | hc | rfl | hc
  · exact .inl (hform (.inl hc))
  · exact .inl (hform (.inr (.inl hc)))
  · exact .inr hquote
  · exact .inl (hspec hc)
  · exact .inr hquote
  · exact .inl (hform (.inr (.inr hc)))

theorem ReferenceStatement.plainText_line (l : List ReferenceStatement) : PlainText (line l) := by
  apply plainText_of_isOrdinary
  induction l using line.induct with
  | case1 => simp [line]
  | case2 s => exact s.isOrdinary_of_mem_text
  | case3 s next rest ih =>
    intro c hc
    rw [line, List.mem_append, List.mem_append] at hc
    rcases hc with hc | hc | hc
    · exact s.isOrdinary_of_mem_text c hc
    · have hsep : ∀ c ∈ "; ".toList, isOrdinary c = true := forall_mem_of_all (by decide)
      exact .inl (hsep c hc)
    · exact ih c hc

end Characters

end ImportLedger
