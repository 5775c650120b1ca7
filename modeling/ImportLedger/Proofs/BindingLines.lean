import ImportLedger.Proofs.SilentBindings
import ImportLedger.Proofs.StatementOrder

/-! Lines of binding statements. Every statement is found once, with what it binds, what it refers
to and where it stands, and nothing else is found, whatever the names and the blanks of the line. -/

namespace ImportLedger

open Text Occurrence Grammar

namespace WrittenBinding

variable {kind : BindingKind} {before : Option Char} {later : List Char}

theorem text_ne_nil (s : WrittenBinding) : s.text ≠ [] := s.derives.ne_nil

theorem silent (s : WrittenBinding) (hne : s.kind ≠ kind) : Silent kind s.text later := by
  cases s with
  | declaration d => exact silent_declaration d hne
  | importFrom i => exact silent_import i (Ne.symm hne)

theorem found_self (s : WrittenBinding) (hb : wordMayFollow before = true) (n : Nat) :
    (found s.kind.shape.read before n (s.text ++ later)).map s.kind.statement =
      s.statementAt n ::
        (found s.kind.shape.read (lastOr before s.text) (n + byteLength s.text) later).map
          s.kind.statement := by
  obtain ⟨v, hread, hbinding, hspecifier, hshown⟩ := read_of_derives s.derives later
  rw [found_of_read s.text_ne_nil hb hread, List.map_cons]
  refine congrArg (· :: _) ?_
  rw [statementAt, ← hbinding, ← hspecifier, ← hshown]
  cases s.kind <;> rfl

/-- A search finds a statement of its kind, and nothing within any other statement. -/
theorem map_found (s : WrittenBinding) (kind : BindingKind) (later : List Char)
    (hb : wordMayFollow before = true) (n : Nat) :
    (found kind.shape.read before n (s.text ++ later)).map kind.statement =
      [s.statementAt n].filter (·.kind == kind) ++
        (found kind.shape.read (lastOr before s.text) (n + byteLength s.text) later).map
          kind.statement := by
  by_cases hkind : s.kind = kind
  · subst hkind
    have hself : ((s.statementAt n).kind == s.kind) = true := beq_self_eq_true s.kind
    have hfilter : [s.statementAt n].filter (·.kind == s.kind) = [s.statementAt n] :=
      List.filter_cons_of_pos hself
    rw [s.found_self hb, hfilter]
    rfl
  · have hother : ¬ ((s.statementAt n).kind == kind) = true := by
      simpa [statementAt] using hkind
    have hfilter : [s.statementAt n].filter (·.kind == kind) = [] :=
      List.filter_cons_of_neg hother
    rw [found_of_quiet (s.silent hkind before), hfilter]
    rfl

end WrittenBinding

namespace BindingLine

theorem silent_separator (kind : BindingKind) (b b' : Gap) (later : List Char) :
    Silent kind (separator b b') later :=
  .blanks_append b.property (.cons (by decide)
    (.of_not_isWord fun c hc => not_isWord_of_isBlank (b'.property c hc)))

theorem wordMayFollow_separator (before : Option Char) (b b' : Gap) :
    wordMayFollow (lastOr before (separator b b')) = true := by
  have hsplit : separator b b' = (b.val ++ [';']) ++ b'.val := by simp [separator]
  rw [hsplit, lastOr_append, lastOr_concat]
  exact wordMayFollow_lastOr (by decide) fun c hc => not_isWord_of_isBlank (b'.property c hc)

/-- Each search finds the statements of its kind, statement after statement. -/
theorem map_found (kind : BindingKind) (l : BindingLine) {before : Option Char}
    (hb : wordMayFollow before = true) (n : Nat) :
    (found kind.shape.read before n l.text).map kind.statement =
      (l.statements n).filter (·.kind == kind) := by
  induction l generalizing before n with
  | last s =>
    have hh := s.map_found kind [] hb n
    rw [List.append_nil] at hh
    rw [text, statements, hh]
    exact List.append_nil _
  | more s b b' rest ih =>
    rw [text, statements, s.map_found kind _ hb, found_of_quiet (silent_separator kind b b' _ _),
      ih (wordMayFollow_separator _ b b')]
    exact (List.filter_append [s.statementAt n] _).symm

theorem statements_of_kind (kind : BindingKind) (l : BindingLine) :
    kind.statements l.text = (l.statements 0).filter (·.kind == kind) :=
  l.map_found kind rfl 0

theorem le_start_of_mem {l : BindingLine} {n : Nat} {s : BindingStatement}
    (h : s ∈ l.statements n) : n ≤ s.start := by
  induction l generalizing n with
  | last t => exact Nat.le_of_eq (congrArg BindingStatement.start (List.mem_singleton.mp h)).symm
  | more t b b' rest ih =>
    rcases List.mem_cons.mp h with rfl | h
    · exact Nat.le_refl n
    · have hh := ih h
      omega

theorem statements_pairwise (l : BindingLine) (n : Nat) :
    (l.statements n).Pairwise (·.start < ·.start) := by
  induction l generalizing n with
  | last s => exact List.pairwise_singleton _ _
  | more s b b' rest ih =>
    refine List.pairwise_cons.mpr ⟨fun t ht => ?_, ih _⟩
    have hstart := le_start_of_mem ht
    have hpos := byteLength_pos s.text_ne_nil
    show n < t.start
    omega

end BindingLine

theorem filter_kinds_perm (l : List BindingStatement) :
    (l.filter (·.kind == .require) ++ l.filter (·.kind == .dynamicImport) ++
      l.filter (·.kind == .importFrom)).Perm l := by
  induction l with
  | nil => exact .nil
  | cons s l ih =>
    apply List.perm_iff_count.mpr
    intro t
    have hh := ih.count_eq t
    simp only [List.count_append] at hh
    cases hk : s.kind <;>
      simp [hk, List.count_append, List.count_cons] <;>
      omega

/-- The search for binding statements on a line of them. There is one for each statement, in order:
its kind, the text that it binds, the specifier, and the bytes from its first to its last
character. -/
theorem bindingStatements_line (l : BindingLine) :
    bindingStatements (String.ofList l.text) = l.statements 0 := by
  rw [bindingStatements, String.toList_ofList, l.statements_of_kind, l.statements_of_kind,
    l.statements_of_kind]
  exact sortBy_eq_of_perm (filter_kinds_perm _) (l.statements_pairwise 0)

example :
    let none : Gap := ⟨[], fun _ h => absurd h List.not_mem_nil⟩
    let space : Space := ⟨[' '], List.forall_mem_singleton.mpr rfl, by decide⟩
    let type : VariableName := ⟨'t', "ype".toList, by decide, forall_mem_of_all (by decide)⟩
    let from' : VariableName := ⟨'f', "rom".toList, by decide, forall_mem_of_all (by decide)⟩
    let import' : VariableName := ⟨'i', "mport".toList, by decide, forall_mem_of_all (by decide)⟩
    let first : WrittenImport :=
      { space, type := some space, target := .default type, before := ⟨space.val, space.property.1⟩,
        after := none, before_ne_nil := fun _ => by decide,
        source := ⟨'\'', ['a'], by decide, by decide, forall_mem_of_all (by decide)⟩ }
    let second : WrittenDeclaration :=
      { word := ⟨"let", by decide⟩, space, before := none, after := none,
        target := .braced (.last none (.renamed import' space space from') none),
        call := .require ⟨none, none,
          ⟨'"', ['b'], by decide, by decide, forall_mem_of_all (by decide)⟩, none⟩ }
    let l : BindingLine := .more (.importFrom first) none none (.last (.declaration second))
    String.ofList l.text = "import type type from'a';let \x7bimport as from\x7d=require(\"b\")" ∧
      l.statements 0 =
        [⟨.importFrom, "type", "a", "import type type from'a'", 0, 24⟩,
          ⟨.require, "\x7bimport as from\x7d", "b", "require(\"b\")", 25, 58⟩] := by
  decide +kernel

end ImportLedger
