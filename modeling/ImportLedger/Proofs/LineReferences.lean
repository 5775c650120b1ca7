import ImportLedger.Proofs.ReferenceSearch

/-! The references of a line of statements: one for each statement and no others,
or else one that no statement makes. -/

namespace ImportLedger

open Text Occurrence ReferenceStatement

theorem byteLength_text (s : ReferenceStatement) :
    byteLength s.text = byteLength s.form.lead + byteLength s.reference := by
  rw [ReferenceStatement.text, byteLength_append]

theorem le_start_of_mem_references {n : Nat} {l : List ReferenceStatement} {r : ModuleReference}
    (h : r ∈ references n l) : n ≤ r.start := by
  induction l generalizing n with
  | nil => simp [references] at h
  | cons s rest ih =>
    rcases List.mem_cons.mp h with rfl | h
    · exact Nat.le_add_right _ _
    · have hh := ih h
      omega

/-- The statements of a line stand one after the other. -/
theorem references_pairwise (n : Nat) (l : List ReferenceStatement) :
    (references n l).Pairwise (·.start < ·.start) := by
  induction l generalizing n with
  | nil => exact .nil
  | cons s rest ih =>
    refine List.pairwise_cons.mpr ⟨fun r hr => ?_, ih _⟩
    have hn := le_start_of_mem_references hr
    have hsep : 0 < byteLength "; ".toList := by decide
    rw [byteLength_text] at hn
    show n + byteLength s.form.lead < r.start
    omega

theorem exists_of_mem_references {n : Nat} {l : List ReferenceStatement} {r : ModuleReference}
    (h : r ∈ references n l) : ∃ s ∈ l, r.specifier = String.ofList s.specifier := by
  induction l generalizing n with
  | nil => simp [references] at h
  | cons s rest ih =>
    rcases List.mem_cons.mp h with rfl | h
    · exact ⟨s, List.mem_cons_self, rfl⟩
    · obtain ⟨s', hs', he⟩ := ih h
      exact ⟨s', List.mem_cons_of_mem _ hs', he⟩

/-- The references that one kind of statement makes. -/
def referencesOf (k : ReferenceKind) : (offset : Nat) → List ReferenceStatement →
    List ModuleReference
  | _, [] => []
  | offset, s :: rest =>
    (if s.form.kind = k then [referenceAt offset s] else []) ++
      referencesOf k (offset + byteLength s.text + byteLength "; ".toList) rest

theorem referencesOf_perm (n : Nat) (l : List ReferenceStatement) :
    (referencesOf .require n l ++ referencesOf .importFrom n l ++ referencesOf .sideEffect n l ++
      referencesOf .dynamicImport n l).Perm (references n l) := by
  induction l generalizing n with
  | nil => exact .nil
  | cons s rest ih =>
    apply List.perm_iff_count.mpr
    intro r
    have hh := (ih (n + byteLength s.text + byteLength "; ".toList)).count_eq r
    simp only [List.count_append] at hh
    cases hk : s.form.kind <;>
      simp only [references, referencesOf, hk, List.count_append, List.count_cons,
        reduceCtorEq, if_true, if_false, List.nil_append, List.cons_append] <;>
      omega

theorem found_separator {k : ReferenceKind} {later : List Char}
    (hplain : PlainText ("; ".toList ++ later)) (before : Option Char) (n : Nat) :
    found k.reader before n ("; ".toList ++ later) =
      found k.reader (some ' ') (n + byteLength "; ".toList) later := by
  have hword : ∀ c ∈ "; ".toList, isWord c = false := forall_mem_of_all (by decide)
  have hlast : lastOr before "; ".toList = some ' ' := by
    rw [show "; ".toList = [';'] ++ [' '] by decide, lastOr_concat]
  rw [found_of_quiet (ReferenceKind.quiet_of_not_isWord hplain hword), hlast]

theorem wordMayFollow_blank : wordMayFollow (some ' ') = true := by decide

theorem map_found_text {k : ReferenceKind} {s : ReferenceStatement} {before : Option Char}
    {later : List Char} (hb : wordMayFollow before = true)
    (hk : s.form.kind ≠ k → SpecifierQuiet k s later) (hplain : PlainText (s.text ++ later))
    (n : Nat) :
    (found k.reader before n (s.text ++ later)).map ReferenceKind.reference =
      (if s.form.kind = k then [referenceAt n s] else []) ++
        (found k.reader (lastOr before s.text) (n + byteLength s.text) later).map
          ReferenceKind.reference := by
  by_cases hkind : s.form.kind = k
  · subst hkind
    rw [found_of_kind hb hplain, if_pos rfl]
    rfl
  · rw [found_of_kind_ne hkind (hk hkind) hplain, if_neg hkind]
    rfl

theorem Separable.tail {s next : ReferenceStatement} {rest : List ReferenceStatement}
    (h : Separable (s :: next :: rest)) : Separable (next :: rest) :=
  fun t ht => h t (List.mem_cons_of_mem _ ht)

/-- Each search finds the statements of its kind, if they can be told. -/
theorem map_found_line {k : ReferenceKind} (l : List ReferenceStatement)
    (hl : k = .sideEffect → Separable l) {before : Option Char}
    (hb : wordMayFollow before = true) (n : Nat) :
    (found k.reader before n (line l)).map ReferenceKind.reference = referencesOf k n l := by
  induction l using line.induct generalizing before n with
  | case1 => rfl
  | case2 s =>
    have hplain : PlainText (s.text ++ []) := by
      rw [List.append_nil]
      exact plainText_line [s]
    have hquiet : SpecifierQuiet k s [] := fun _ => .inr fun _ hc => absurd hc List.not_mem_nil
    have hh := map_found_text hb (fun _ => hquiet) hplain n
    rw [List.append_nil] at hh
    exact hh
  | case3 s next rest ih =>
    have hplain := plainText_line (s :: next :: rest)
    have hquiet (hne : s.form.kind ≠ k) :
        SpecifierQuiet k s ("; ".toList ++ line (next :: rest)) := by
      intro hk
      rcases hl hk s List.mem_cons_self with hside | hno
      · exact absurd (hside.trans hk.symm) hne
      · exact .inl hno
    rw [line] at hplain ⊢
    rw [map_found_text hb hquiet hplain n, found_separator (hplain.of_append rfl),
      ih (fun hk => (hl hk).tail) wordMayFollow_blank]
    rfl

/-- Up to the quote of the next statement a line goes on without quotes. -/
theorem line_cons_cons (s next : ReferenceStatement) (rest : List ReferenceStatement) :
    ∃ r, line (s :: next :: rest) =
      s.text ++ (("; ".toList ++ (next.form.lead ++ next.form.head)) ++ next.quote :: r) := by
  have hnext : ∃ r, line (next :: rest) = next.text ++ r := by
    cases rest with
    | nil => exact ⟨[], (List.append_nil _).symm⟩
    | cons t rest => exact ⟨_, rfl⟩
  obtain ⟨r, hr⟩ := hnext
  rw [line, hr]
  refine ⟨next.specifier ++ next.quote :: (next.form.closing ++ r), ?_⟩
  simp [ReferenceStatement.text, ReferenceStatement.reference]

theorem exists_phantom_of_first {s next : ReferenceStatement} {rest : List ReferenceStatement}
    (hkind : s.form.kind ≠ .sideEffect) (hends : endsInImport s.specifier = true)
    (before : Option Char) (n : Nat) :
    ∃ o ∈ found ReferenceKind.sideEffect.reader before n (line (s :: next :: rest)),
      ';' ∈ o.value := by
  have hplain := plainText_line (s :: next :: rest)
  obtain ⟨r, hr⟩ := line_cons_cons s next rest
  have hsep : ∀ c ∈ "; ".toList, Shape.isQuote c = false := forall_mem_of_all (by decide)
  have hseg : ∀ c ∈ "; ".toList ++ (next.form.lead ++ next.form.head), Shape.isQuote c = false := by
    intro c hc
    rcases List.mem_append.mp hc with hc | hc
    · exact hsep c hc
    · exact not_isQuote_of_mem_opening next.form c hc
  have hsemi : ';' ∈ "; ".toList ++ (next.form.lead ++ next.form.head) :=
    List.mem_append_left _ (by decide)
  rw [hr] at hplain ⊢
  obtain ⟨o, ho, hv⟩ := exists_found_of_endsInImport hkind hends hplain hseg
    (List.ne_nil_of_mem hsemi) next.isPlainQuote_quote before n
  refine ⟨o, ho, ?_⟩
  rw [hv]
  exact List.mem_append_right _ hsemi

/-- If the statements of a line cannot be told, the search for side-effect imports finds
something with a semicolon in it. -/
theorem exists_phantom (l : List ReferenceStatement) (hl : ¬ Separable l) {before : Option Char}
    (hb : wordMayFollow before = true) (n : Nat) :
    ∃ o ∈ found ReferenceKind.sideEffect.reader before n (line l), ';' ∈ o.value := by
  induction l using line.induct generalizing before n with
  | case1 => exact absurd (fun s hs => absurd hs List.not_mem_nil) hl
  | case2 s => exact absurd (fun s hs => absurd hs List.not_mem_nil) hl
  | case3 s next rest ih =>
    by_cases hs : s.form.kind = .sideEffect ∨ endsInImport s.specifier = false
    · have hplain := plainText_line (s :: next :: rest)
      have htail : ¬ Separable (next :: rest) := fun h => hl fun t ht => by
        rcases List.mem_cons.mp ht with rfl | ht
        · exact hs
        · exact h t ht
      obtain ⟨o, ho, hsemi⟩ := ih htail wordMayFollow_blank
        (n + byteLength s.text + byteLength "; ".toList)
      rw [line] at hplain ⊢
      rw [← found_separator (hplain.of_append rfl) (lastOr before s.text)] at ho
      refine ⟨o, ?_, hsemi⟩
      by_cases hkind : s.form.kind = .sideEffect
      · rw [← hkind] at ho ⊢
        rw [found_of_kind hb hplain]
        exact List.mem_cons_of_mem _ ho
      · rw [found_of_kind_ne hkind (fun _ => .inl (hs.resolve_left hkind)) hplain]
        exact ho
    · obtain ⟨hkind, hends⟩ := not_or.mp hs
      exact exists_phantom_of_first hkind (by simpa using hends) before n

theorem moduleReferences_line {l : List ReferenceStatement} (hl : Separable l) :
    moduleReferences (String.ofList (line l)) = references 0 l := by
  have hk (k : ReferenceKind) : k.references (line l) = referencesOf k 0 l :=
    map_found_line l (fun _ => hl) rfl 0
  rw [ReferenceKind.moduleReferences_eq, String.toList_ofList, hk, hk, hk, hk]
  exact sortBy_eq_of_perm (referencesOf_perm 0 l) (references_pairwise 0 l)

theorem exists_phantom_reference {l : List ReferenceStatement} (hl : ¬ Separable l) :
    ∃ r ∈ moduleReferences (String.ofList (line l)),
      ∀ s ∈ l, r.specifier ≠ String.ofList s.specifier := by
  have hphantom : ∃ o ∈ findAll ReferenceKind.sideEffect.reader (line l), ';' ∈ o.value :=
    exists_phantom l hl rfl 0
  obtain ⟨o, ho, hsemi⟩ := hphantom
  refine ⟨ReferenceKind.reference o, ?_, ?_⟩
  · rw [ReferenceKind.mem_moduleReferences, String.toList_ofList]
    exact ⟨.sideEffect, List.mem_map_of_mem ho⟩
  · intro s hs he
    have hvalue : o.value = s.specifier := String.ofList_injective he
    rw [hvalue] at hsemi
    have hpart := s.isSpecifierPart_of_mem ';' hsemi
    exact absurd hpart (by decide)

/-- A line of statements has one reference for each of them, in order, if and only
if they can be told; if they cannot, one of its references names a module that no
statement names. If they can, a missing record is always for the package of one of
the statements. -/
theorem references_of_line (l : List ReferenceStatement) :
    (moduleReferences (String.ofList (line l)) = references 0 l ↔ Separable l) ∧
    (¬ Separable l → ∃ r ∈ moduleReferences (String.ofList (line l)),
      ∀ s ∈ l, r.specifier ≠ String.ofList s.specifier) ∧
    (Separable l → ∀ (number : Nat) (file : String) (sets : DependencySets),
      ∀ r ∈ findMissing [⟨String.ofList (line l), number⟩] file sets,
        ∃ s ∈ l, packageName (String.ofList s.specifier) = some r.name) := by
  refine ⟨⟨fun he => ?_, moduleReferences_line⟩, exists_phantom_reference, ?_⟩
  · by_contra hl
    obtain ⟨r, hr, hno⟩ := exists_phantom_reference hl
    rw [he] at hr
    obtain ⟨s, hs, hspec⟩ := exists_of_mem_references hr
    exact hno s hs hspec
  · intro hl number file sets r hr
    obtain ⟨t, ht, reference, hreference, hp, -⟩ := mem_findMissing.mp hr
    obtain rfl := List.mem_singleton.mp ht
    rw [moduleReferences_line hl] at hreference
    obtain ⟨s, hs, hspec⟩ := exists_of_mem_references hreference
    exact ⟨s, hs, hspec ▸ hp⟩

theorem references_of_line_roi_tape :
    let l : List ReferenceStatement :=
      [⟨.boundRequire ⟨'r', ['o', 'i'], by decide, forall_mem_of_all (by decide)⟩, '\'',
          "import-roi".toList, by decide, by decide, forall_mem_of_all (by decide)⟩,
        ⟨.sideEffect, '"', "tape/import".toList, by decide, by decide,
          forall_mem_of_all (by decide)⟩,
        ⟨.dynamicImport, '\'', "./import".toList, by decide, by decide,
          forall_mem_of_all (by decide)⟩]
    String.ofList (line l) =
      "const roi = require('import-roi'); import \"tape/import\"; import('./import')" ∧
    moduleReferences (String.ofList (line l)) =
      [⟨12, "import-roi"⟩, ⟨35, "tape/import"⟩, ⟨57, "./import"⟩] := by
  intro l
  have hl : Separable l := by decide +kernel
  exact ⟨by decide +kernel, (references_of_line l).1.mpr hl⟩

/-- A package whose name ends in `import` is enough for a reference that is none: what stands
between its closing quote and the next quote of the line. -/
theorem phantom_reference_eslint_plugin_import :
    let l : List ReferenceStatement :=
      [⟨.requireCall, '\'', "eslint-plugin-import".toList, by decide, by decide,
          forall_mem_of_all (by decide)⟩,
        ⟨.requireCall, '\'', "x".toList, by decide, by decide, forall_mem_of_all (by decide)⟩]
    String.ofList (line l) = "require('eslint-plugin-import'); require('x')" ∧
    moduleReferences (String.ofList (line l)) =
      [⟨0, "eslint-plugin-import"⟩, ⟨23, "); require("⟩, ⟨33, "x"⟩] ∧
    moduleReferences (String.ofList (line l)) ≠ references 0 l ∧
    findMissing [⟨String.ofList (line l), 1⟩] "x.js"
        (.production [⟨"eslint-plugin-import", "2.0.0", .production⟩, ⟨"x", "1.0.0", .production⟩]) =
      [⟨"); require(", "x.js", 1⟩] := by
  decide +kernel

end ImportLedger
