import ImportLedger.Finder.Declaration
import ImportLedger.Proofs.ReferenceGrammar

/-! Where statements and references begin. What begins at a place of a text is of one kind at most,
so the merged lists of a line are in strict order, whichever kind is searched for first. -/

namespace ImportLedger

open Text Occurrence

namespace Grammar

section Statements

variable {kind kind' : BindingKind} {binding binding' m m' tail tail' body body' : List Char}
  {reference reference' whole whole' u u' : List Char}

/-- What stands behind the equals sign tells a `require` call from a call of `import`. -/
theorem Body.require_ne_dynamicImport (h : Body .require binding m tail body)
    (h' : Body .dynamicImport binding' m' tail' body') : body ++ u ≠ body' ++ u' := by
  intro he
  cases h with
  | require ht hb hd hc =>
    cases h' with
    | dynamicImport ht' hb' hd' ha hc' =>
      simp only [List.append_assoc, List.cons_append] at he
      obtain ⟨-, -, -, hcall⟩ := equals_append_inj ht ht' hb hb' hd hd'
        (hc.past_blank Shape.isKeyword_require) (await_past_blank ha hc') he
      obtain ⟨-, -, -, -⟩ := hc
      obtain ⟨-, -, -, -⟩ := hc'
      -- One text begins with `require` here, the other with `await` or with `import`.
      cases ha with
      | absent => exact absurd (List.cons.inj hcall).1 (by decide)
      | present => exact absurd (List.cons.inj hcall).1 (by decide)

theorem keyword_eq_import_iff {word : String} (hw : word ∈ keywords kind) :
    word = "import" ↔ kind = .importFrom := by
  have hall : ∀ w ∈ declarators, w ≠ "import" := by decide
  cases kind with
  | importFrom => simpa [keywords] using hw
  | require | dynamicImport => simpa using hall word hw

/-- Statements of one kind at most begin a text. -/
theorem Derives.kind_eq (h : Derives kind binding m reference whole)
    (h' : Derives kind' binding' m' reference' whole') (he : whole ++ u = whole' ++ u') :
    kind = kind' := by
  obtain ⟨word, hw, b, tail, body, hb, hne, hbody, rfl, -⟩ := h.exists_body
  obtain ⟨word', hw', b', tail', body', hb', hne', hbody', rfl, -⟩ := h'.exists_body
  rw [List.append_assoc, List.append_assoc, List.append_assoc, List.append_assoc] at he
  obtain ⟨hword, -, hrest⟩ := keyword_append_inj (keyword_nonblank hw) (keyword_nonblank hw') hb
    hb' hne hne' hbody.past_blank hbody'.past_blank he
  have hfrom : kind = .importFrom ↔ kind' = .importFrom := by
    rw [← keyword_eq_import_iff hw, ← keyword_eq_import_iff hw', String.toList_inj.mp hword]
  cases kind with
  | importFrom => exact (hfrom.mp rfl).symm
  | require =>
    cases kind' with
    | require => rfl
    | dynamicImport => exact absurd hrest (hbody.require_ne_dynamicImport hbody')
    | importFrom => exact absurd (hfrom.mpr rfl) (by decide)
  | dynamicImport =>
    cases kind' with
    | require => exact absurd hrest.symm (hbody'.require_ne_dynamicImport hbody)
    | dynamicImport => rfl
    | importFrom => exact absurd (hfrom.mpr rfl) (by decide)

end Statements

section References

variable {kind kind' : ReferenceKind} {m m' whole whole' u u' : List Char}

/-- The kind of a reference, told by its keyword and by what stands behind that and some blanks. -/
def kindBy (keyword : String) (next : Char) : ReferenceKind :=
  if keyword = "require" then .require
  else if next = '(' then .dynamicImport
  else if Shape.isPlainQuote next then .sideEffect
  else .importFrom

theorem kindBy_of_isPlainQuote {q : Char} (h : Shape.isPlainQuote q = true) :
    kindBy "import" q = .sideEffect := by
  have hne : q ≠ '(' := by
    rintro rfl
    exact absurd h (by decide)
  simp [kindBy, hne, h]

theorem kindBy_of_mayBegin {c : Char} (h : mayBegin c = true) :
    kindBy "import" c = .importFrom := by
  have hne : c ≠ '(' := by
    rintro rfl
    exact absurd h (by decide)
  have hquote : Shape.isPlainQuote c = false := by
    refine Bool.eq_false_iff.mpr fun hq => ?_
    simp only [Shape.isPlainQuote, Bool.or_eq_true, beq_iff_eq] at hq
    rcases hq with rfl | rfl <;> exact absurd h (by decide)
  simp [kindBy, hne, hquote]

theorem keyword_eq_of_append (h : kind.keyword.toList ++ u = kind'.keyword.toList ++ u') :
    kind.keyword = kind'.keyword := by
  have hhead : ∀ k k' : ReferenceKind,
      k.keyword.toList.head? = k'.keyword.toList.head? → k.keyword = k'.keyword := by
    intro k k'
    cases k <;> cases k' <;> decide
  have hne (k : ReferenceKind) : k.keyword.toList ≠ [] := by
    cases k <;> decide
  have hh := congrArg List.head? h
  rw [List.head?_append_of_ne_nil _ (hne kind), List.head?_append_of_ne_nil _ (hne kind')] at hh
  exact hhead kind kind' hh

theorem Refers.exists_opening (h : Refers kind m whole) :
    ∃ b c r, Blanks b ∧ isBlank c = false ∧ whole = kind.keyword.toList ++ (b ++ c :: r) ∧
      kindBy kind.keyword c = kind := by
  have hcall {keyword : String} {s : List Char} (hc : Call keyword m s) :
      ∃ b r, Blanks b ∧ s = keyword.toList ++ (b ++ '(' :: r) := by
    obtain ⟨hb, -, -, -⟩ := hc
    exact ⟨_, _, hb, rfl⟩
  cases h with
  | require hc =>
    obtain ⟨b, r, hb, hs⟩ := hcall hc
    exact ⟨b, '(', r, hb, by decide, hs, rfl⟩
  | dynamicImport hc =>
    obtain ⟨b, r, hb, hs⟩ := hcall hc
    exact ⟨b, '(', r, hb, by decide, hs, rfl⟩
  | sideEffect hb hs =>
    obtain ⟨hq, -⟩ := hs
    exact ⟨_, _, _, hb, not_isBlank_of_isPlainQuote hq, rfl, kindBy_of_isPlainQuote hq⟩
  | importFrom hd =>
    obtain ⟨word, hw, b, tail, body, hb, -, hbody, rfl, -⟩ := hd.exists_body
    obtain ⟨c, r, rfl, hc⟩ := hbody.exists_mayBegin
    obtain rfl := List.mem_singleton.mp hw
    exact ⟨b, c, r, hb, not_isBlank_of_mayBegin hc, rfl, kindBy_of_mayBegin hc⟩

/-- References of one kind at most begin a text. -/
theorem Refers.kind_eq (h : Refers kind m whole) (h' : Refers kind' m' whole')
    (he : whole ++ u = whole' ++ u') : kind = kind' := by
  obtain ⟨b, c, r, hb, hc, rfl, hkind⟩ := h.exists_opening
  obtain ⟨b', c', r', hb', hc', rfl, hkind'⟩ := h'.exists_opening
  simp only [List.append_assoc] at he
  have hword := keyword_eq_of_append he
  rw [hword] at he
  obtain ⟨-, hrest⟩ := hb.append_inj hb' (past_cons.mpr hc) (past_cons.mpr hc')
    (List.append_cancel_left he)
  calc kind = kindBy kind.keyword c := hkind.symm
    _ = kindBy kind'.keyword c' := by rw [hword, (List.cons.inj hrest).1]
    _ = kind' := hkind'

end References

end Grammar

open Grammar

section Readers

variable {s : List Char}

theorem BindingKind.read_eq_none {kind kind' : BindingKind} (hne : kind ≠ kind')
    (h : (kind.shape.read s).isSome = true) : kind'.shape.read s = none := by
  obtain ⟨⟨v, left⟩, hr⟩ := Option.isSome_iff_exists.mp h
  refine Option.eq_none_iff_forall_ne_some.mpr fun v' hr' => ?_
  obtain ⟨whole, hs, hd⟩ := derives_of_read hr
  obtain ⟨whole', hs', hd'⟩ := derives_of_read hr'
  exact hne (hd.kind_eq hd' (hs.symm.trans hs'))

theorem ReferenceKind.reader_eq_none {kind kind' : ReferenceKind} (hne : kind ≠ kind')
    (h : (kind.reader s).isSome = true) : kind'.reader s = none := by
  obtain ⟨⟨m, left⟩, hr⟩ := Option.isSome_iff_exists.mp h
  refine Option.eq_none_iff_forall_ne_some.mpr fun v' hr' => ?_
  obtain ⟨whole, hd, hs⟩ := reader_iff.mp hr
  obtain ⟨whole', hd', hs'⟩ := reader_iff.mp hr'
  exact hne (hd.kind_eq hd' (hs.symm.trans hs'))

/-- Readers of which one at most reads a text find nothing at the same place. -/
theorem Occurrence.start_ne_of_mem_findAll {α β : Type} {read : Reader α} {read' : Reader β}
    (h : ∀ s, (read s).isSome = true → read' s = none) {text : List Char} {o : Occurrence α}
    {o' : Occurrence β} (ho : o ∈ findAll read text) (ho' : o' ∈ findAll read' text) :
    o.start ≠ o'.start := by
  intro he
  obtain ⟨p, c, r, left, ht, -, hr, hstart, -⟩ := exists_of_mem_findAll ho
  obtain ⟨p', c', r', left', ht', -, hr', hstart', -⟩ := exists_of_mem_findAll ho'
  obtain ⟨-, hrest⟩ := append_inj_of_byteLength (ht.symm.trans ht')
    (hstart.symm.trans (he.trans hstart'))
  have hnone := h (c :: r) (by rw [hr]; rfl)
  rw [hrest, hr'] at hnone
  cases hnone

end Readers

namespace BindingKind

/-- The kinds in the order in which they are searched for. -/
def all : List BindingKind := [require, dynamicImport, importFrom]

theorem bindingStatements_eq (text : String) :
    bindingStatements text = sortBy (fun a b => decide (a.start ≤ b.start))
      (all.flatMap (·.statements text.toList)) := by
  simp [bindingStatements, all]

theorem pairwise_start_ne {kinds : List BindingKind} (hk : kinds.Nodup) (text : List Char) :
    (kinds.flatMap (·.statements text)).Pairwise (·.start ≠ ·.start) := by
  refine pairwise_ne_flatMap hk (fun kind => kind.statements_pairwise text) ?_
  intro kind kind' hne a ha b hb
  obtain ⟨o, ho, rfl⟩ := List.mem_map.mp ha
  obtain ⟨o', ho', rfl⟩ := List.mem_map.mp hb
  exact start_ne_of_mem_findAll (fun _ => read_eq_none hne) ho ho'

end BindingKind

namespace ReferenceKind

/-- The kinds in the order in which they are searched for. -/
def all : List ReferenceKind := [require, importFrom, sideEffect, dynamicImport]

theorem moduleReferences_eq_flatMap (text : String) :
    moduleReferences text = sortBy (fun a b => decide (a.start ≤ b.start))
      (all.flatMap (·.references text.toList)) := by
  simp [moduleReferences_eq, all]

theorem pairwise_start_ne {kinds : List ReferenceKind} (hk : kinds.Nodup) (text : List Char) :
    (kinds.flatMap (·.references text)).Pairwise (·.start ≠ ·.start) := by
  refine pairwise_ne_flatMap hk (fun kind => kind.references_pairwise text) ?_
  intro kind kind' hne a ha b hb
  obtain ⟨o, ho, rfl⟩ := List.mem_map.mp ha
  obtain ⟨o', ho', rfl⟩ := List.mem_map.mp hb
  exact start_ne_of_mem_findAll (fun _ => reader_eq_none hne) ho ho'

end ReferenceKind

theorem bindingStatements_pairwise_lt (text : String) :
    (bindingStatements text).Pairwise (·.start < ·.start) := by
  rw [BindingKind.bindingStatements_eq]
  exact sortBy_pairwise_lt (BindingKind.pairwise_start_ne (by decide) _)

theorem moduleReferences_pairwise_lt (text : String) :
    (moduleReferences text).Pairwise (·.start < ·.start) := by
  rw [ReferenceKind.moduleReferences_eq_flatMap]
  exact sortBy_pairwise_lt (ReferenceKind.pairwise_start_ne (by decide) _)

theorem Declaration.onLine_pairwise_lt (file : String) (dependencies : List Dependency)
    (line : Line) : (onLine file dependencies line).Pairwise (·.start < ·.start) := by
  refine (bindingStatements_pairwise_lt line.text).filterMap _ ?_
  intro a b hab d hd d' hd'
  obtain ⟨name, -, rfl⟩ := Option.map_eq_some_iff.mp hd
  obtain ⟨name', -, rfl⟩ := Option.map_eq_some_iff.mp hd'
  exact hab

/-- No two of the binding statements of a line begin at the same place, nor do two of its
references: where one kind can be read, no other kind can. So both lists are in strict order, and
the same whichever kind is searched for first; and a line has one declaration at most for a
place. -/
theorem starts_increase (text : String) :
    (bindingStatements text).Pairwise (·.start < ·.start) ∧
    (moduleReferences text).Pairwise (·.start < ·.start) ∧
    (∀ (s : List Char) (kind kind' : BindingKind), kind ≠ kind' →
      (kind.shape.read s).isSome = true → kind'.shape.read s = none) ∧
    (∀ (s : List Char) (kind kind' : ReferenceKind), kind ≠ kind' →
      (kind.reader s).isSome = true → kind'.reader s = none) ∧
    (∀ kinds : List BindingKind, kinds.Perm BindingKind.all →
      sortBy (fun a b => decide (a.start ≤ b.start)) (kinds.flatMap (·.statements text.toList)) =
        bindingStatements text) ∧
    (∀ kinds : List ReferenceKind, kinds.Perm ReferenceKind.all →
      sortBy (fun a b => decide (a.start ≤ b.start)) (kinds.flatMap (·.references text.toList)) =
        moduleReferences text) ∧
    ∀ (file : String) (dependencies : List Dependency) (number : Nat),
      (Declaration.onLine file dependencies ⟨text, number⟩).Pairwise (·.start < ·.start) := by
  refine ⟨bindingStatements_pairwise_lt text, moduleReferences_pairwise_lt text,
    fun s kind kind' hne h => BindingKind.read_eq_none hne h,
    fun s kind kind' hne h => ReferenceKind.reader_eq_none hne h, ?_, ?_,
    fun file dependencies number => Declaration.onLine_pairwise_lt file dependencies _⟩
  · intro kinds hk
    rw [BindingKind.bindingStatements_eq]
    exact sortBy_eq_sortBy (hk.flatMap_right _) (BindingKind.pairwise_start_ne (by decide) _)
  · intro kinds hk
    rw [ReferenceKind.moduleReferences_eq_flatMap]
    exact sortBy_eq_sortBy (hk.flatMap_right _) (ReferenceKind.pairwise_start_ne (by decide) _)

/-- Statements and references of every kind, searched for from the last kind to the first. -/
theorem starts_increase_mixed :
    let text := "import a from 'a'; let b = require('b'); let c = await import('c'); import 'd'"
    let call := "let b = require('b')".toList
    let quoted := "import 'd'".toList
    BindingKind.require ≠ .dynamicImport ∧
      (BindingKind.require.shape.read call).isSome = true ∧
      BindingKind.dynamicImport.shape.read call = none ∧
      ReferenceKind.sideEffect ≠ .importFrom ∧
      (ReferenceKind.sideEffect.reader quoted).isSome = true ∧
      ReferenceKind.importFrom.reader quoted = none ∧
      BindingKind.all.reverse.Perm BindingKind.all ∧
      sortBy (fun a b => decide (a.start ≤ b.start))
          (BindingKind.all.reverse.flatMap (·.statements text.toList)) = bindingStatements text ∧
      ReferenceKind.all.reverse.Perm ReferenceKind.all ∧
      sortBy (fun a b => decide (a.start ≤ b.start))
          (ReferenceKind.all.reverse.flatMap (·.references text.toList)) = moduleReferences text ∧
      (bindingStatements text).map (·.start) = [0, 19, 41] ∧
      (moduleReferences text).map (·.start) = [0, 27, 55, 68] := by
  intro text call quoted
  obtain ⟨-, -, hread, hreader, hstatements, hreferences, -⟩ := starts_increase text
  have hcall : (BindingKind.require.shape.read call).isSome = true := by decide +kernel
  have hquoted : (ReferenceKind.sideEffect.reader quoted).isSome = true := by decide +kernel
  exact ⟨by decide, hcall, hread call _ _ (by decide) hcall,
    by decide, hquoted, hreader quoted _ _ (by decide) hquoted,
    BindingKind.all.reverse_perm, hstatements _ BindingKind.all.reverse_perm,
    ReferenceKind.all.reverse_perm, hreferences _ ReferenceKind.all.reverse_perm,
    by decide +kernel, by decide +kernel⟩

end ImportLedger
