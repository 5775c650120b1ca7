import ImportLedger.Proofs.ReferenceLine

/-! What the searches for references find on a line of statements, one statement
after the other. -/

namespace ImportLedger

open Pattern Text Occurrence

section Heads

variable {k : ReferenceKind} {w : List Char}

theorem exists_blank_of_head (h : ReferenceKind.importFrom.head.Describes w) :
    ∃ c ∈ w, isBlank c = true := by
  obtain ⟨_, link, hbound, -, rfl⟩ := describes_append.mp h
  obtain ⟨_, binding, hlead, -, rfl⟩ := describes_append.mp hbound
  obtain ⟨_, u, himport, -, rfl⟩ := describes_append.mp hlead
  obtain ⟨t, b, -, hb, rfl⟩ := describes_append.mp himport
  obtain ⟨hne, hb⟩ := describes_someOf.mp hb
  obtain ⟨c, b, rfl⟩ := List.exists_cons_of_ne_nil hne
  exact ⟨c, by simp, hb c List.mem_cons_self⟩

/-- The only head that could stand at the end of a specifier. -/
theorem eq_import_of_head (hw : ∀ c ∈ w, isSpecifierPart c = true) (h : k.head.Describes w) :
    k = .sideEffect ∧ w = "import".toList := by
  have hbracket (hm : '(' ∈ k.mark.toList) : False := by
    have hmem := (ReferenceKind.mark_of_head h).subset hm
    have hpart := hw '(' (List.mem_of_mem_filter hmem)
    exact absurd hpart (by decide)
  cases k with
  | require => exact (hbracket (by decide)).elim
  | dynamicImport => exact (hbracket (by decide)).elim
  | importFrom =>
    obtain ⟨c, hc, hb⟩ := exists_blank_of_head h
    rw [not_isBlank_of_isSpecifierPart (hw c hc)] at hb
    cases hb
  | sideEffect =>
    obtain ⟨t, b, ht, hb, rfl⟩ := describes_append.mp h
    have hnil : b = [] := by
      cases b with
      | nil => rfl
      | cons c b =>
        have hblank := describes_run.mp hb c List.mem_cons_self
        rw [not_isBlank_of_isSpecifierPart (hw c (by simp))] at hblank
        cases hblank
    rw [describes_literal.mp ht, hnil, List.append_nil]
    exact ⟨rfl, rfl⟩

theorem StatementForm.describes_head (form : StatementForm) :
    form.kind.head.Describes form.head := by
  have hblank : isBlank ' ' = true := by decide
  have hone : Shape.blanks.Describes [' '] := describes_run.mpr (by simp [hblank])
  have hrequire : (Shape.callHead "require").Describes "require(".toList :=
    Shape.describes_callHead.mpr ⟨[], [], by simp, by simp, by decide⟩
  have hdynamic : (Shape.callHead "import").Describes "import(".toList :=
    Shape.describes_callHead.mpr ⟨[], [], by simp, by simp, by decide⟩
  have himport : "import ".toList = "import".toList ++ [' '] := by decide
  cases form with
  | requireCall => exact hrequire
  | boundRequire name => exact hrequire
  | dynamicImport => exact hdynamic
  | sideEffect =>
    have hhead : (literal "import" ++ Shape.blanks).Describes "import ".toList :=
      himport ▸ .seq (.literal "import") hone
    exact hhead
  | importFrom name =>
    have hfrom : " from ".toList = [' '] ++ "from".toList ++ [' '] := by decide
    have hsome : Shape.someBlanks.Describes [' '] := describes_someOf.mpr (by simp [hblank])
    have hlead : Shape.importFrom.lead.Describes ("import ".toList ++ []) :=
      .seq (himport ▸ .seq (.literal "import") hsome) (describes_optional.mpr (.inr rfl))
    have hbinding : Shape.importFrom.binding.Describes (name.chars ++ []) :=
      .first (.seq name.describes_chars (describes_optional.mpr (.inr rfl)))
    have hlink : Shape.importFrom.link.Describes " from ".toList :=
      hfrom ▸ .seq (.seq hone (.literal "from")) hone
    rw [List.append_nil] at hlead hbinding
    exact .seq (.seq hlead hbinding) hlink

theorem StatementForm.describes_closing (form : StatementForm) :
    form.kind.closing.Describes form.closing := by
  have hcall : (Shape.blanks ++ literal ")").Describes ")".toList :=
    describes_append.mpr ⟨[], _, describes_run.mpr (by simp), .literal ")", rfl⟩
  cases form with
  | requireCall => exact hcall
  | boundRequire name => exact hcall
  | dynamicImport => exact hcall
  | importFrom name => exact .literal ""
  | sideEffect => exact .literal ""

/-- No head of a kind ends a statement's opening but the statement's own. -/
theorem kind_of_head_suffix {form : StatementForm} (hs : w <:+ form.lead ++ form.head)
    (h : k.head.Describes w) : form.kind = k := by
  have hform : form.kind.mark.toList <:+ ink (form.lead ++ form.head) := by
    rw [ink_append]
    exact (ReferenceKind.mark_of_head form.describes_head).trans (List.suffix_append _ _)
  have hw : k.mark.toList <:+ ink (form.lead ++ form.head) :=
    (ReferenceKind.mark_of_head h).trans (hs.filter _)
  exact ReferenceKind.eq_of_marks hform hw

/-- The head of a statement does not begin before its keyword. -/
theorem not_head_of_lead {form : StatementForm} {p u : List Char} {c : Char}
    (hlead : form.lead = p ++ c :: u) : ¬ form.kind.head.Describes (c :: (u ++ form.head)) := by
  intro h
  cases form with
  | boundRequire name =>
    have hlong := Shape.ink_callHead Shape.isKeyword_require h
    have hshort := Shape.ink_callHead Shape.isKeyword_require
      (StatementForm.describes_head .requireCall)
    rw [show c :: (u ++ (StatementForm.boundRequire name).head) =
      (c :: u) ++ StatementForm.requireCall.head from rfl, ink_append, hshort] at hlong
    have hnil : ink (c :: u) = [] := List.append_left_eq_self.mp hlong
    obtain ⟨d, r, hd, hword⟩ := ReferenceKind.keyword_of_head h
    obtain ⟨rfl, -⟩ := List.cons.inj hd
    exact ink_cons_ne_nil (not_isBlank_of_isWord hword) hnil
  | requireCall | importFrom name | sideEffect | dynamicImport =>
    have hnil : [] = p ++ c :: u := hlead
    simp at hnil

end Heads

section Statements

variable {k : ReferenceKind} {s : ReferenceStatement} {before : Option Char} {later : List Char}

theorem wordMayFollow_lead (form : StatementForm) (h : wordMayFollow before = true) :
    wordMayFollow (lastOr before form.lead) = true := by
  cases form with
  | boundRequire name =>
    have hequals : " = ".toList = [' ', '='] ++ [' '] := by decide
    have hlead : (StatementForm.boundRequire name).lead =
        ("const ".toList ++ name.chars ++ [' ', '=']) ++ [' '] := by
      rw [List.append_assoc, ← hequals]
      rfl
    rw [hlead, lastOr_concat]
    decide
  | requireCall | importFrom name | sideEffect | dynamicImport => exact h

theorem not_isQuote_of_mem_opening (form : StatementForm) :
    ∀ c ∈ form.lead ++ form.head, Shape.isQuote c = false := by
  intro c hc
  apply not_isQuote_of_isOrdinary
  apply form.isOrdinary_of_mem
  rw [← List.append_assoc]
  exact List.mem_append_left _ hc

theorem not_isQuote_of_mem_closing (form : StatementForm) :
    ∀ c ∈ form.closing, Shape.isQuote c = false := fun c hc =>
  not_isQuote_of_isOrdinary (form.isOrdinary_of_mem c (by simp [hc]))

theorem not_isQuote_of_mem_specifier (s : ReferenceStatement) :
    ∀ c ∈ s.specifier, Shape.isQuote c = false := fun c hc =>
  not_isQuote_of_isOrdinary (s.isOrdinary_of_mem_specifier c hc)

theorem not_isWord_of_mem_closing (form : StatementForm) :
    ∀ c ∈ form.closing, isWord c = false := by
  have hbracket : ∀ c ∈ ")".toList, isWord c = false := forall_mem_of_all (by decide)
  cases form with
  | requireCall | boundRequire name | dynamicImport => exact hbracket
  | importFrom name | sideEffect => exact fun c hc => absurd hc List.not_mem_nil

theorem not_isWord_of_isQuote {c : Char} (h : Shape.isQuote c = true) : isWord c = false := by
  apply Bool.eq_false_iff.mpr
  intro hw
  rw [Shape.not_isQuote_of_isTokenPart (by simp [isTokenPart, hw])] at h
  cases h

/-- A search for the kind of a statement finds it. -/
theorem found_of_kind (hb : wordMayFollow before = true) (hplain : PlainText (s.text ++ later))
    (n : Nat) :
    found s.form.kind.reader before n (s.text ++ later) =
      ⟨n + byteLength s.form.lead, s.reference, s.specifier⟩ ::
        found s.form.kind.reader (lastOr before s.text) (n + byteLength s.text) later := by
  have hquote := ReferenceKind.isQuote_of_isPlainQuote s.isPlainQuote_quote
  have hreference : s.reference ++ later =
      s.form.head ++ s.quote :: (s.specifier ++ s.quote :: (s.form.closing ++ later)) := by
    simp [ReferenceStatement.reference]
  have htext : s.text ++ later = s.form.lead ++ (s.reference ++ later) := by
    simp [ReferenceStatement.text]
  rw [htext] at hplain ⊢
  have hread : s.form.kind.reader (s.reference ++ later) = some (s.specifier, later) := by
    have hplain' : PlainText (s.reference ++ later) := hplain.of_append rfl
    rw [hreference] at hplain' ⊢
    exact ReferenceKind.reader_eq hplain' s.form.describes_head s.isPlainQuote_quote
      s.isPlainQuote_quote s.specifier_ne_nil (not_isQuote_of_mem_specifier s)
      s.form.describes_closing
  have hquiet : Quiet s.form.kind.reader before s.form.lead (s.reference ++ later) := by
    rw [hreference] at hplain ⊢
    exact ReferenceKind.quiet_of_heads s.form.head hplain (not_isQuote_of_mem_opening s.form) hquote
      fun p c u hp _ => not_head_of_lead hp
  have hne : s.reference ≠ [] := by simp [ReferenceStatement.reference]
  rw [found_of_quiet hquiet, found_of_read hne (wordMayFollow_lead s.form hb) hread,
    ← lastOr_append, Nat.add_assoc, ← byteLength_append]
  rfl

/-- Whether a search finds nothing in the specifier of a statement. -/
def SpecifierQuiet (k : ReferenceKind) (s : ReferenceStatement) (later : List Char) : Prop :=
  k = .sideEffect → endsInImport s.specifier = false ∨ ∀ c ∈ later, Shape.isQuote c = false

theorem quiet_specifier (hk : SpecifierQuiet k s later)
    (hplain : PlainText (s.specifier ++ s.quote :: (s.form.closing ++ later))) :
    Quiet k.reader (some s.quote) s.specifier (s.quote :: (s.form.closing ++ later)) := by
  have hquote := ReferenceKind.isQuote_of_isPlainQuote s.isPlainQuote_quote
  by_cases hlater : k = .sideEffect ∧ ∀ c ∈ later, Shape.isQuote c = false
  · refine ReferenceKind.quiet_of_unpaired hplain (not_isQuote_of_mem_specifier s) hquote ?_
    intro c hc
    rcases List.mem_append.mp hc with hc | hc
    · exact not_isQuote_of_mem_closing s.form c hc
    · exact hlater.2 c hc
  · refine ReferenceKind.quiet_of_heads [] hplain
      (by simpa using not_isQuote_of_mem_specifier s) hquote ?_
    intro p c u hp hw hhead
    rw [List.append_nil] at hhead
    have hpart : ∀ d ∈ c :: u, isSpecifierPart d = true := fun d hd =>
      s.isSpecifierPart_of_mem d (by rw [hp]; exact List.mem_append_right _ hd)
    obtain ⟨hside, himport⟩ := eq_import_of_head hpart hhead
    have hends : endsInImport s.specifier = true := by
      rw [hp, himport]
      exact endsInImport_append hw
    rcases hk hside with hno | hno
    · rw [hends] at hno
      cases hno
    · exact hlater ⟨hside, hno⟩

theorem quiet_opening (hne : s.form.kind ≠ k)
    (hplain : PlainText (s.form.lead ++ s.form.head ++ s.quote :: later)) :
    Quiet k.reader before (s.form.lead ++ s.form.head ++ [s.quote]) later := by
  have hquote := ReferenceKind.isQuote_of_isPlainQuote s.isPlainQuote_quote
  apply Quiet.append
  · refine ReferenceKind.quiet_of_heads [] hplain
      (by simpa using not_isQuote_of_mem_opening s.form) hquote ?_
    intro p c u hp _ hhead
    rw [List.append_nil] at hhead
    exact hne (kind_of_head_suffix ⟨p, hp.symm⟩ hhead)
  · exact ReferenceKind.quiet_of_not_isWord (hplain.of_append rfl)
      (by simpa using not_isWord_of_isQuote hquote)

/-- The other searches find nothing in a statement. -/
theorem found_of_kind_ne (hne : s.form.kind ≠ k) (hk : SpecifierQuiet k s later)
    (hplain : PlainText (s.text ++ later)) (n : Nat) :
    found k.reader before n (s.text ++ later) =
      found k.reader (lastOr before s.text) (n + byteLength s.text) later := by
  have htext : s.text = (s.form.lead ++ s.form.head ++ [s.quote]) ++
      (s.specifier ++ (s.quote :: s.form.closing)) := by
    simp [ReferenceStatement.text, ReferenceStatement.reference]
  rw [htext] at hplain ⊢
  refine found_of_quiet (Quiet.append ?_ (Quiet.append ?_ ?_)) n
  · exact quiet_opening hne (hplain.of_append (p := []) (by simp))
  · rw [lastOr_concat]
    exact quiet_specifier hk
      (hplain.of_append (p := s.form.lead ++ s.form.head ++ [s.quote]) (by simp))
  · refine ReferenceKind.quiet_of_not_isWord
      (hplain.of_append (p := s.form.lead ++ s.form.head ++ s.quote :: s.specifier) (by simp)) ?_
    intro c hc
    rcases List.mem_cons.mp hc with rfl | hc
    · exact not_isWord_of_isQuote (ReferenceKind.isQuote_of_isPlainQuote s.isPlainQuote_quote)
    · exact not_isWord_of_mem_closing s.form c hc

/-- Nothing is read from a specifier before the word `import` at its end. -/
theorem quiet_before_import {p r : List Char} (hp : s.specifier = p ++ "import".toList)
    (hplain : PlainText (p ++ ("import".toList ++ s.quote :: r))) :
    Quiet k.reader before p ("import".toList ++ s.quote :: r) := by
  refine ReferenceKind.quiet_of_heads "import".toList hplain ?_
    (ReferenceKind.isQuote_of_isPlainQuote s.isPlainQuote_quote) ?_
  · rw [← hp]
    exact not_isQuote_of_mem_specifier s
  · intro p' c u hp' _ hhead
    have hpart : ∀ d ∈ c :: (u ++ "import".toList), isSpecifierPart d = true := by
      intro d hd
      apply s.isSpecifierPart_of_mem
      rw [hp, hp', List.append_assoc]
      exact List.mem_append_right _ hd
    have hlen := congrArg List.length (eq_import_of_head hpart hhead).2
    rw [List.length_cons, List.length_append] at hlen
    omega

/-- The word `import` and a quoted text are a side-effect import, wherever the quotes come from. -/
theorem reader_import {q q' : Char} {m r : List Char} (hq : Shape.isPlainQuote q = true)
    (hq' : Shape.isPlainQuote q' = true) (hne : m ≠ []) (hm : ∀ c ∈ m, Shape.isQuote c = false)
    (hplain : PlainText ("import".toList ++ q :: (m ++ q' :: ([] ++ r)))) :
    ReferenceKind.sideEffect.reader ("import".toList ++ q :: (m ++ q' :: ([] ++ r))) =
      some (m, r) := by
  have hhead : ReferenceKind.sideEffect.head.Describes "import".toList :=
    describes_append.mpr ⟨_, [], .literal "import", describes_run.mpr (by simp), rfl⟩
  exact ReferenceKind.reader_eq hplain hhead hq hq' hne hm (.literal "")

/-- From a specifier that ends in `import` the search for side-effect imports reads on to the
next quote. -/
theorem exists_found_of_endsInImport {seg r : List Char} {q : Char}
    (hne : s.form.kind ≠ .sideEffect) (hends : endsInImport s.specifier = true)
    (hplain : PlainText (s.text ++ (seg ++ q :: r))) (hseg : ∀ c ∈ seg, Shape.isQuote c = false)
    (hnil : seg ≠ []) (hq : Shape.isPlainQuote q = true) (before : Option Char) (n : Nat) :
    ∃ o ∈ found ReferenceKind.sideEffect.reader before n (s.text ++ (seg ++ q :: r)),
      o.value = s.form.closing ++ seg := by
  obtain ⟨p, hp, hw⟩ := exists_of_endsInImport hends
  have hquote := ReferenceKind.isQuote_of_isPlainQuote s.isPlainQuote_quote
  let opening := s.form.lead ++ s.form.head ++ [s.quote]
  let phantom := "import".toList ++ s.quote :: (s.form.closing ++ seg ++ [q])
  have htext : s.text ++ (seg ++ q :: r) = (opening ++ p) ++ (phantom ++ r) := by
    simp [ReferenceStatement.text, ReferenceStatement.reference, hp, opening, phantom]
  have hphantom : phantom ++ r =
      "import".toList ++ s.quote :: (s.form.closing ++ seg ++ q :: ([] ++ r)) := by
    simp [phantom]
  rw [htext] at hplain ⊢
  have hplain' : PlainText (phantom ++ r) := hplain.of_append rfl
  have hplain'' : PlainText (p ++ (phantom ++ r)) := hplain.of_append (p := opening) (by simp)
  have hvalue : ∀ c ∈ s.form.closing ++ seg, Shape.isQuote c = false := by
    intro c hc
    rcases List.mem_append.mp hc with hc | hc
    · exact not_isQuote_of_mem_closing s.form c hc
    · exact hseg c hc
  have hread : ReferenceKind.sideEffect.reader (phantom ++ r) =
      some (s.form.closing ++ seg, r) := by
    rw [hphantom] at hplain' ⊢
    exact reader_import s.isPlainQuote_quote hq (by simp [hnil]) hvalue hplain'
  have hquiet : Quiet ReferenceKind.sideEffect.reader before (opening ++ p) (phantom ++ r) := by
    apply Quiet.append
    · exact quiet_opening hne (hplain.of_append (p := []) (by simp [opening]))
    · rw [hphantom] at hplain'' ⊢
      exact quiet_before_import hp hplain''
  have hword : wordMayFollow (lastOr before (opening ++ p)) = true := by
    rw [lastOr_append, lastOr_concat]
    exact hw _ (by simp [wordMayFollow, not_isWord_of_isQuote hquote])
  rw [found_of_quiet hquiet, found_of_read (by simp [phantom]) hword hread]
  exact ⟨_, List.mem_cons_self, rfl⟩

end Statements

end ImportLedger
