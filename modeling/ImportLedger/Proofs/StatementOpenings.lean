import ImportLedger.Proofs.BindingReadings
import ImportLedger.Proofs.ReferenceKinds

/-! What stands before the quoted specifier of a binding statement: its keyword, a gap, what it
binds, and what joins that to the specifier. -/

namespace ImportLedger

open Pattern Text Grammar

namespace BindingKind

/-- The search for references that meets the reference of a statement. -/
def referenceKind : BindingKind → ReferenceKind
  | require => .require
  | dynamicImport => .dynamicImport
  | importFrom => .importFrom

/-- How a reference begins, up to its quoted specifier. -/
def referenceHead : BindingKind → Pattern
  | require => Shape.callHead "require"
  | dynamicImport => Shape.callHead "import"
  | importFrom => literal ""

/-- What stands between the bound text of a statement and its quoted specifier. -/
def joint (kind : BindingKind) : Pattern := kind.shape.link ++ kind.referenceHead

/-- All that stands before the quoted specifier of a statement. -/
def opening (kind : BindingKind) : Pattern := kind.shape.lead ++ kind.shape.binding ++ kind.joint

end BindingKind

namespace Grammar

/-- A character that may stand in a list between brackets: no bracket and no quote. -/
def isListPart (c : Char) : Bool := !Shape.isQuote c && !(['{', '}', '[', ']'].contains c)

/-- What stands between the gap behind a keyword and the joint. -/
inductive Bound : BindingKind → List Char → Prop
  | declared {kind : BindingKind} {s : List Char} (hk : kind ≠ .importFrom) (h : Target s) :
      Bound kind s
  | imported {type s : List Char} (ht : Marker "type" type) (h : Imported s) :
      Bound .importFrom (type ++ s)

section Characters

variable {c : Char} {s : List Char}

theorem isListPart_iff :
    isListPart c = true ↔ Shape.isQuote c = false ∧ c ∉ ['{', '}', '[', ']'] := by
  simp [isListPart]

theorem isListPart_of_isBlank (h : isBlank c = true) : isListPart c = true := by
  have hall : ∀ d ∈ ['{', '}', '[', ']'], isBlank d = false := forall_mem_of_all (by decide)
  refine isListPart_iff.mpr ⟨Shape.not_isQuote_of_isBlank h, fun hc => ?_⟩
  rw [hall c hc] at h
  cases h

theorem isListPart_of_isTokenPart (h : isTokenPart c = true) : isListPart c = true := by
  have hall : ∀ d ∈ ['{', '}', '[', ']'], isTokenPart d = false := forall_mem_of_all (by decide)
  refine isListPart_iff.mpr ⟨Shape.not_isQuote_of_isTokenPart h, fun hc => ?_⟩
  rw [hall c hc] at h
  cases h

theorem isListPart_of_isWord (h : isWord c = true) : isListPart c = true :=
  isListPart_of_isTokenPart (by simp [isTokenPart, h])

theorem Blanks.isListPart_of_mem (h : Blanks s) : ∀ c ∈ s, isListPart c = true :=
  fun c hc => isListPart_of_isBlank (h c hc)

theorem Name.isListPart_of_mem (h : Name s) : ∀ c ∈ s, isListPart c = true :=
  fun c hc => isListPart_of_isTokenPart (h.isTokenPart_of_mem c hc)

theorem Alias.isListPart_of_mem (h : Alias s) : ∀ c ∈ s, isListPart c = true := by
  obtain ⟨hb, hb', -, hn⟩ := h
  refine List.forall_mem_cons.mpr ⟨by decide, ?_⟩
  simp only [List.forall_mem_append]
  exact ⟨hb.isListPart_of_mem, forall_mem_of_all (by decide), hb'.isListPart_of_mem,
    hn.isListPart_of_mem⟩

end Characters

section Bounds

variable {kind : BindingKind} {s : List Char}

theorem Bound.exists_mayBegin (h : Bound kind s) : ∃ c r, s = c :: r ∧ mayBegin c = true := by
  cases h with
  | declared hk ht => exact ht.exists_mayBegin
  | imported ht hi => exact ht.exists_mayBegin hi.exists_mayBegin

/-- Without an opening bracket a bound text is free of brackets. -/
theorem Bound.isListPart_of_mem (h : Bound kind s) (hs : '{' ∉ s ∧ '[' ∉ s) :
    ∀ c ∈ s, isListPart c = true := by
  have hgroup {g : List Char} (hg : Group g) (hno : '{' ∉ g) : ∀ c ∈ g, isListPart c = true := by
    cases hg with
    | braced hb =>
      obtain ⟨-⟩ := hb
      exact absurd List.mem_cons_self hno
    | all ha => exact ha.isListPart_of_mem
  cases h with
  | declared hk ht =>
    cases ht with
    | name hn => exact hn.isListPart_of_mem
    | braced hb =>
      obtain ⟨-⟩ := hb
      exact absurd List.mem_cons_self hs.1
    | bracketed hb =>
      obtain ⟨-⟩ := hb
      exact absurd List.mem_cons_self hs.2
  | imported ht hi =>
    have hno := fun hc => hs.1 (List.mem_append_right _ hc)
    refine List.forall_mem_append.mpr ⟨?_, ?_⟩
    · cases ht with
      | absent => exact fun _ hc => absurd hc List.not_mem_nil
      | present hb =>
        exact List.forall_mem_append.mpr ⟨name_type.isListPart_of_mem, hb.isListPart_of_mem⟩
    · cases hi with
      | default hn => exact hn.isListPart_of_mem
      | both hn hb hb' hg =>
        simp only [List.forall_mem_append, List.forall_mem_cons]
        exact ⟨hn.isListPart_of_mem, hb.isListPart_of_mem, by decide, hb'.isListPart_of_mem,
          hgroup hg fun hc => hno (by simp [hc])⟩
      | group hg => exact hgroup hg hno

end Bounds

section Joints

variable {kind : BindingKind} {s w : List Char}

theorem isListPart_of_mem_joint (h : kind.joint.Describes s) : ∀ c ∈ s, isListPart c = true := by
  have hblank : ∀ c, isBlank c = true → isListPart c = true := fun c => isListPart_of_isBlank
  have hcall {keyword : String} (hk : keyword.toList.all isListPart = true) :
      (Shape.callHead keyword).Within isListPart :=
    ⟨⟨⟨within_literal hk, hblank⟩, within_literal (by decide)⟩, hblank⟩
  have hequals : (Shape.blanks ++ literal "=" ++ Shape.blanks).Within isListPart :=
    ⟨⟨hblank, within_literal (by decide)⟩, hblank⟩
  have hawait : (optional (literal "await" ++ Shape.someBlanks)).Within isListPart :=
    ⟨⟨within_literal (by decide), hblank, hblank⟩, within_literal (by decide)⟩
  have hfrom : (Shape.blanks ++ literal "from" ++ Shape.blanks).Within isListPart :=
    ⟨⟨hblank, within_literal (by decide)⟩, hblank⟩
  have hwithin : kind.joint.Within isListPart := by
    cases kind with
    | require => exact ⟨hequals, hcall (by decide)⟩
    | dynamicImport => exact ⟨⟨hequals, hawait⟩, hcall (by decide)⟩
    | importFrom => exact ⟨hfrom, within_literal (by decide)⟩
  exact hwithin.forall_mem h

theorem ink_joint_importFrom (h : BindingKind.importFrom.joint.Describes s) :
    ink s = "from".toList := by
  obtain ⟨_, _, hlink, hnil, rfl⟩ := describes_append.mp h
  obtain ⟨b, b', hb, hb', rfl⟩ := describes_importLink.mp hlink
  rw [describes_literal.mp hnil, ink_append, ink_append, ink_append, ink_of_blank hb,
    ink_of_blank hb']
  decide

/-- What ends with the joint of a kind ends as the heads of its references do. -/
theorem mark_of_joint (h : kind.joint.Describes s) (front : List Char) :
    kind.referenceKind.mark.toList <:+ ink (front ++ s) := by
  rw [ink_append]
  cases kind with
  | importFrom =>
    rw [ink_joint_importFrom h]
    exact List.suffix_append _ _
  | require =>
    obtain ⟨link, head, -, hhead, rfl⟩ := describes_append.mp h
    rw [ink_append, Shape.ink_callHead Shape.isKeyword_require hhead, ← List.append_assoc]
    exact List.suffix_append _ _
  | dynamicImport =>
    obtain ⟨link, head, -, hhead, rfl⟩ := describes_append.mp h
    rw [ink_append, Shape.ink_callHead Shape.isKeyword_import hhead, ← List.append_assoc]
    exact List.suffix_append _ _

/-- The first letters of keywords stand in no joint of their kind. -/
def initials : BindingKind → List Char
  | .importFrom => ['i']
  | .require | .dynamicImport => ['c', 'l', 'v']

theorem exists_initial {word : String} (hw : word ∈ keywords kind) :
    ∃ c r, word.toList = c :: r ∧ c ∈ initials kind := by
  have hall : ∀ w ∈ declarators, ∃ c r, w.toList = c :: r ∧ c ∈ ['c', 'l', 'v'] := by
    simp [declarators]
  cases kind with
  | importFrom => exact ⟨'i', _, by rw [List.mem_singleton.mp hw]; rfl, List.mem_singleton_self _⟩
  | require | dynamicImport => exact hall word hw

theorem initial_notMem_joint (h : kind.joint.Describes s) : ∀ c ∈ s, c ∉ initials kind := by
  have hblank {l : List Char} (hl : l.all isWord = true) :
      ∀ c, isBlank c = true → (!l.contains c) = true := by
    intro c hc
    cases hmem : l.contains c with
    | false => rfl
    | true =>
      have hword := List.all_eq_true.mp hl c (List.contains_iff_mem.mp hmem)
      rw [not_isWord_of_isBlank hc] at hword
      cases hword
  have hletters : ∀ c, isBlank c = true → (!(['c', 'l', 'v'].contains c)) = true :=
    hblank (by decide)
  have hletter : ∀ c, isBlank c = true → (!(['i'].contains c)) = true := hblank (by decide)
  have hwithin : kind.joint.Within (!(initials kind).contains ·) := by
    cases kind with
    | require =>
      exact ⟨⟨⟨hletters, within_literal (by decide)⟩, hletters⟩,
        ⟨⟨within_literal (by decide), hletters⟩, within_literal (by decide)⟩, hletters⟩
    | dynamicImport =>
      exact ⟨⟨⟨⟨hletters, within_literal (by decide)⟩, hletters⟩,
        ⟨within_literal (by decide), hletters, hletters⟩, within_literal (by decide)⟩,
        ⟨⟨within_literal (by decide), hletters⟩, within_literal (by decide)⟩, hletters⟩
    | importFrom =>
      exact ⟨⟨⟨hletter, within_literal (by decide)⟩, hletter⟩, within_literal (by decide)⟩
  exact fun c hc => by simpa using hwithin.forall_mem h c hc

end Joints

section Openings

variable {kind : BindingKind} {w : List Char}

/-- A statement begins with its keyword, a gap that is not empty, and what it binds. -/
theorem exists_of_opening (h : kind.opening.Describes w) :
    ∃ word ∈ keywords kind, ∃ gap bound joint, Blanks gap ∧ gap ≠ [] ∧ Bound kind bound ∧
      kind.joint.Describes joint ∧ w = word.toList ++ (gap ++ (bound ++ joint)) := by
  obtain ⟨_, joint, hbound, hjoint, rfl⟩ := describes_append.mp h
  obtain ⟨lead, binding, hlead, hbinding, rfl⟩ := describes_append.mp hbound
  have hdeclared (hk : kind ≠ .importFrom) (hlead : Shape.declarator.Describes lead)
      (ht : Target binding) (hkeywords : keywords kind = declarators) :
      ∃ word ∈ keywords kind, ∃ gap bound j, Blanks gap ∧ gap ≠ [] ∧ Bound kind bound ∧
        kind.joint.Describes j ∧
        lead ++ binding ++ joint = word.toList ++ (gap ++ (bound ++ j)) := by
    obtain ⟨word, hw, b, hb, hne, rfl⟩ := describes_declarator.mp hlead
    exact ⟨word, hkeywords ▸ hw, b, binding, joint, hb, hne, .declared hk ht, hjoint, by simp⟩
  cases kind with
  | require => exact hdeclared (by simp) hlead (describes_target.mp hbinding) rfl
  | dynamicImport => exact hdeclared (by simp) hlead (describes_target.mp hbinding) rfl
  | importFrom =>
    obtain ⟨b, type, hb, hne, ht, rfl⟩ := describes_importLead.mp hlead
    exact ⟨"import", List.mem_cons_self, b, type ++ binding, joint, hb, hne,
      .imported ht (describes_imported.mp hbinding), hjoint, by simp⟩

/-- A statement begins with the first letter of a keyword. -/
theorem exists_initial_of_opening (h : kind.opening.Describes w) :
    ∃ c r, w = c :: r ∧ c ∈ initials kind ∧ isWord c = true := by
  obtain ⟨word, hw, gap, bound, joint, -, -, -, -, rfl⟩ := exists_of_opening h
  obtain ⟨c, r, hword, hc⟩ := exists_initial hw
  exact ⟨c, r ++ (gap ++ (bound ++ joint)), by rw [hword]; rfl, hc,
    isWord_of_mem_keyword hw c (by simp [hword])⟩

/-- Without an opening bracket no bracket stands before the quoted specifier of a statement. -/
theorem isListPart_of_mem_opening (h : kind.opening.Describes w) (hw : '{' ∉ w ∧ '[' ∉ w) :
    ∀ c ∈ w, isListPart c = true := by
  obtain ⟨word, hword, gap, bound, joint, hgap, -, hbound, hjoint, rfl⟩ := exists_of_opening h
  have hno : '{' ∉ bound ∧ '[' ∉ bound := by
    simp only [List.mem_append, not_or] at hw
    exact ⟨hw.1.2.2.1, hw.2.2.2.1⟩
  simp only [List.forall_mem_append]
  exact ⟨fun c hc => isListPart_of_isWord (isWord_of_mem_keyword hword c hc),
    hgap.isListPart_of_mem, hbound.isListPart_of_mem hno, isListPart_of_mem_joint hjoint⟩

end Openings

end Grammar

end ImportLedger
