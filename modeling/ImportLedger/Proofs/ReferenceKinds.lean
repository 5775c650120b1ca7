import ImportLedger.Proofs.Readings
import ImportLedger.Proofs.StatementOrder

/-! The four searches for references side by side. Each reads a head and the
quoted specifier after it, and the end of a head tells the kinds apart. -/

namespace ImportLedger

open Pattern Text Occurrence

/-- A text in which no brace opens and no backtick stands. -/
def PlainText (s : List Char) : Prop := ∀ c ∈ s, c ≠ '{' ∧ c ≠ '`'

theorem PlainText.of_subset {s t : List Char} (h : PlainText t) (hs : s ⊆ t) : PlainText s :=
  fun c hc => h c (hs hc)

theorem PlainText.of_append {p s t : List Char} (h : PlainText t) (ht : t = p ++ s) :
    PlainText s :=
  h.of_subset fun _ hc => ht ▸ List.mem_append_right p hc

theorem PlainText.not_isQuote {s m : List Char} (h : PlainText s) (hs : m ⊆ s)
    (hm : ∀ c ∈ m, Shape.isPlainQuote c = false) : ∀ c ∈ m, Shape.isQuote c = false := by
  intro c hc
  simp [Shape.isQuote, hm c hc, (h c (hs hc)).2]

/-- The ways of referring to a module, each found by a search of its own. -/
inductive ReferenceKind
  | require
  | importFrom
  | sideEffect
  | dynamicImport
  deriving DecidableEq, Repr

namespace ReferenceKind

/-- Reads a reference of the kind and yields its specifier. -/
def reader : ReferenceKind → Reader (List Char)
  | require => Shape.requireCall.read
  | importFrom => fun s => (Shape.importFrom.read s).map fun (v, left) => (v.specifier, left)
  | sideEffect => Shape.sideEffectImport.read
  | dynamicImport => Shape.dynamicImport.read

/-- The reference that an occurrence is. -/
def reference (o : Occurrence (List Char)) : ModuleReference := ⟨o.start, String.ofList o.value⟩

def references (kind : ReferenceKind) (text : List Char) : List ModuleReference :=
  (findAll kind.reader text).map reference

theorem references_pairwise (kind : ReferenceKind) (text : List Char) :
    (kind.references text).Pairwise (·.start < ·.start) :=
  List.pairwise_map.mpr (findAll_pairwise_start text)

theorem references_importFrom (text : List Char) :
    importFrom.references text = Shape.importFrom.references text := by
  show (findAll (fun s => (Shape.importFrom.read s).map _) text).map reference = _
  rw [findAll_map, List.map_map]
  rfl

theorem moduleReferences_eq (text : String) :
    moduleReferences text = sortBy (fun a b => decide (a.start ≤ b.start))
      (require.references text.toList ++ importFrom.references text.toList ++
        sideEffect.references text.toList ++ dynamicImport.references text.toList) := by
  rw [moduleReferences, references_importFrom]
  rfl

theorem mem_moduleReferences {text : String} {r : ModuleReference} :
    r ∈ moduleReferences text ↔ ∃ kind : ReferenceKind, r ∈ kind.references text.toList := by
  rw [moduleReferences_eq, (sortBy_perm _ _).mem_iff]
  simp only [List.mem_append, or_assoc]
  constructor
  · rintro (h | h | h | h)
    · exact ⟨require, h⟩
    · exact ⟨importFrom, h⟩
    · exact ⟨sideEffect, h⟩
    · exact ⟨dynamicImport, h⟩
  · rintro ⟨kind, h⟩
    cases kind with
    | require => exact .inl h
    | importFrom => exact .inr (.inl h)
    | sideEffect => exact .inr (.inr (.inl h))
    | dynamicImport => exact .inr (.inr (.inr h))

/-- Where references of one kind alone are found, the merged list is theirs. -/
theorem moduleReferences_of_kind {k : ReferenceKind} {text : List Char}
    (h : ∀ k' ≠ k, k'.references text = []) :
    moduleReferences (String.ofList text) = k.references text := by
  rw [moduleReferences_eq, String.toList_ofList]
  refine sortBy_eq_of_perm ?_ (k.references_pairwise text)
  cases k with
  | require => simp [h]
  | importFrom => simp [h]
  | sideEffect => simp [h]
  | dynamicImport => simp [h]

/-- The word that a reference begins with. -/
def keyword : ReferenceKind → String
  | require => "require"
  | importFrom | sideEffect | dynamicImport => "import"

/-- What stands before the quoted specifier. -/
def head : ReferenceKind → Pattern
  | require => Shape.callHead "require"
  | importFrom => Shape.importFrom.lead ++ Shape.importFrom.binding ++ Shape.importFrom.link
  | sideEffect => literal "import" ++ Shape.blanks
  | dynamicImport => Shape.callHead "import"

/-- What stands after the quoted specifier. -/
def closing : ReferenceKind → Pattern
  | require | dynamicImport => Shape.blanks ++ literal ")"
  | importFrom | sideEffect => literal ""

/-- How the heads of a kind end. -/
def mark : ReferenceKind → String
  | require => "require("
  | importFrom => "from"
  | sideEffect => "import"
  | dynamicImport => "import("

theorem eq_of_marks {k k' : ReferenceKind} {s : List Char} (h : k.mark.toList <:+ s)
    (h' : k'.mark.toList <:+ s) : k = k' := by
  have hcases : ∀ k k' : ReferenceKind, k.mark.toList <:+ k'.mark.toList → k = k' := by
    intro k k'
    cases k <;> cases k' <;> decide
  rcases List.suffix_or_suffix_of_suffix h h' with hs | hs
  · exact hcases k k' hs
  · exact (hcases k' k hs).symm

theorem mark_of_head {k : ReferenceKind} {w : List Char} (h : k.head.Describes w) :
    k.mark.toList <:+ ink w := by
  cases k with
  | require =>
    rw [Shape.ink_callHead Shape.isKeyword_require h]
    decide
  | dynamicImport =>
    rw [Shape.ink_callHead Shape.isKeyword_import h]
    decide
  | sideEffect =>
    obtain ⟨t, b, ht, hb, rfl⟩ := describes_append.mp h
    rw [describes_literal.mp ht, ink_append, ink_of_blank (describes_run.mp hb)]
    decide
  | importFrom =>
    obtain ⟨t, _, -, hlink, rfl⟩ := describes_append.mp h
    obtain ⟨_, b', hfrom, hb', rfl⟩ := describes_append.mp hlink
    obtain ⟨b, _, -, ht, rfl⟩ := describes_append.mp hfrom
    rw [describes_literal.mp ht, ink_append, ink_append, ink_of_blank (describes_run.mp hb'),
      ink_append, List.append_nil, ← List.append_assoc]
    exact List.suffix_append _ _

/-- A head begins with the keyword of its kind. -/
theorem keyword_of_head {k : ReferenceKind} {w : List Char} (h : k.head.Describes w) :
    ∃ c r, w = c :: r ∧ isWord c = true := by
  have hword {keyword : String} {rest : List Char} (hne : keyword.toList ≠ [])
      (hc : ∀ c ∈ keyword.toList, isWord c = true) :
      ∃ c r, keyword.toList ++ rest = c :: r ∧ isWord c = true := by
    obtain ⟨c, r, hcr⟩ := List.exists_cons_of_ne_nil hne
    exact ⟨c, r ++ rest, by rw [hcr]; rfl, hc c (by simp [hcr])⟩
  cases k with
  | require =>
    obtain ⟨b, b', -, -, rfl⟩ := Shape.describes_callHead.mp h
    exact hword (by decide) (forall_mem_of_all (by decide))
  | dynamicImport =>
    obtain ⟨b, b', -, -, rfl⟩ := Shape.describes_callHead.mp h
    exact hword (by decide) (forall_mem_of_all (by decide))
  | sideEffect =>
    obtain ⟨t, b, ht, -, rfl⟩ := describes_append.mp h
    rw [describes_literal.mp ht]
    exact hword (by decide) (forall_mem_of_all (by decide))
  | importFrom =>
    obtain ⟨_, link, hbound, -, rfl⟩ := describes_append.mp h
    obtain ⟨_, binding, hlead, -, rfl⟩ := describes_append.mp hbound
    obtain ⟨_, u, himport, -, rfl⟩ := describes_append.mp hlead
    obtain ⟨t, b, ht, -, rfl⟩ := describes_append.mp himport
    rw [describes_literal.mp ht, List.append_assoc, List.append_assoc, List.append_assoc]
    exact hword (by decide) (forall_mem_of_all (by decide))

/-- The bindings of `import … from` statements in which no brace opens. -/
def unbraced : Pattern :=
  either
    (Shape.name ++ optional (Shape.blanks ++ literal "," ++ Shape.blanks ++ Shape.namespaceAlias))
    Shape.namespaceAlias

theorem unbraced_of_binding {s : List Char} (hs : '{' ∉ s)
    (h : Shape.importFrom.binding.Describes s) : unbraced.Describes s := by
  have hno {t : List Char} (ht : t ⊆ s) : ¬ Shape.braced.Describes t := by
    intro hbraced
    obtain ⟨_, _, hrun, -, rfl⟩ := describes_append.mp hbraced
    obtain ⟨_, _, hopen, -, rfl⟩ := describes_append.mp hrun
    rw [describes_literal.mp hopen] at ht
    exact hs (ht (by simp))
  rcases describes_either.mp h with hnamed | hlist
  · obtain ⟨n, t, hn, ht, rfl⟩ := describes_append.mp hnamed
    refine .first (.seq hn ?_)
    rcases describes_optional.mp ht with hmore | rfl
    · obtain ⟨u, a, hu, ha, rfl⟩ := describes_append.mp hmore
      rcases describes_either.mp ha with hbraced | halias
      · exact absurd hbraced (hno fun c hc => by simp [hc])
      · exact describes_optional.mpr (.inl (.seq hu halias))
    · exact describes_optional.mpr (.inr rfl)
  · rcases describes_either.mp hlist with hbraced | halias
    · exact absurd hbraced (hno fun c hc => hc)
    · exact .second halias

theorem not_isQuote_of_mem_head {k : ReferenceKind} {w : List Char} (h : k.head.Describes w)
    (hw : PlainText w) : ∀ c ∈ w, Shape.isQuote c = false := by
  have hblank : ∀ c, isBlank c = true → (!Shape.isQuote c) = true := fun c hc => by
    simp [Shape.not_isQuote_of_isBlank hc]
  cases k with
  | require => exact Shape.not_isQuote_of_mem_callHead Shape.isKeyword_require h
  | dynamicImport => exact Shape.not_isQuote_of_mem_callHead Shape.isKeyword_import h
  | sideEffect =>
    have hwithin : sideEffect.head.Within (!Shape.isQuote ·) :=
      ⟨within_literal (by decide), hblank⟩
    exact fun c hc => by simpa using hwithin.forall_mem h c hc
  | importFrom =>
    have hpart : ∀ c, isTokenPart c = true → (!Shape.isQuote c) = true := fun c hc => by
      simp [Shape.not_isQuote_of_isTokenPart hc]
    have hname : Shape.name.Within (!Shape.isQuote ·) :=
      ⟨fun c hc => hpart c (isTokenPart_of_isTokenStart hc), hpart⟩
    have hsome : Shape.someBlanks.Within (!Shape.isQuote ·) := ⟨hblank, hblank⟩
    have halias : Shape.namespaceAlias.Within (!Shape.isQuote ·) :=
      ⟨⟨⟨⟨within_literal (by decide), hblank⟩, within_literal (by decide)⟩, hsome⟩, hname⟩
    have hleads : Shape.importFrom.lead.Within (!Shape.isQuote ·) :=
      ⟨⟨within_literal (by decide), hsome⟩, ⟨within_literal (by decide), hsome⟩,
        within_literal (by decide)⟩
    have hbound : unbraced.Within (!Shape.isQuote ·) :=
      ⟨⟨hname, ⟨⟨⟨hblank, within_literal (by decide)⟩, hblank⟩, halias⟩,
        within_literal (by decide)⟩, halias⟩
    have hlinks : Shape.importFrom.link.Within (!Shape.isQuote ·) :=
      ⟨⟨hblank, within_literal (by decide)⟩, hblank⟩
    obtain ⟨_, link, hfirst, hlink, rfl⟩ := describes_append.mp h
    obtain ⟨lead, binding, hlead, hbinding, rfl⟩ := describes_append.mp hfirst
    have hunbraced := unbraced_of_binding (fun hc => (hw '{' (by simp [hc])).1 rfl) hbinding
    intro c hc
    rcases List.mem_append.mp hc with hc | hc
    · rcases List.mem_append.mp hc with hc | hc
      · simpa using hleads.forall_mem hlead c hc
      · simpa using hbound.forall_mem hunbraced c hc
    · simpa using hlinks.forall_mem hlink c hc

theorem isQuote_of_isPlainQuote {c : Char} (h : Shape.isPlainQuote c = true) :
    Shape.isQuote c = true := by
  simp [Shape.isQuote, h]

/-- What a reader reads is cut at two quotes. -/
theorem cut_of_reader {k : ReferenceKind} {s m left : List Char} (h : k.reader s = some (m, left)) :
    ∃ w q q' t, k.head.Describes w ∧ Shape.isQuote q = true ∧ Shape.isQuote q' = true ∧
      (∀ c ∈ m, Shape.isPlainQuote c = false) ∧ k.closing.Describes t ∧
      s = w ++ q :: (m ++ q' :: (t ++ left)) := by
  have hcall {keyword : String} (hk : Shape.IsKeyword keyword)
      (hr : (Shape.call keyword).read s = some (m, left)) :
      ∃ w q q' t, (Shape.callHead keyword).Describes w ∧ Shape.isQuote q = true ∧
        Shape.isQuote q' = true ∧ (∀ c ∈ m, Shape.isPlainQuote c = false) ∧
        (Shape.blanks ++ literal ")").Describes t ∧ s = w ++ q :: (m ++ q' :: (t ++ left)) := by
    obtain ⟨w, q, q', b, hw, hq, hq', -, hm, hb, he⟩ := (Shape.call_read_iff hk).mp hr
    have hm' : ∀ c ∈ m, Shape.isPlainQuote c = false := fun c hc =>
      (Bool.or_eq_false_iff.mp (hm c hc)).1
    exact ⟨w, q, q', b ++ [')'], hw, hq, hq', hm', .seq (.run hb) (.literal ")"), by simp [he]⟩
  have hnil : (literal "").Describes [] := .literal ""
  cases k with
  | require => exact hcall Shape.isKeyword_require h
  | dynamicImport => exact hcall Shape.isKeyword_import h
  | sideEffect =>
    obtain ⟨w, q, q', hw, hq, hq', -, hm, rfl⟩ := Shape.quoted_read_sound h
    exact ⟨w, q, q', [], hw, isQuote_of_isPlainQuote hq, isQuote_of_isPlainQuote hq', hm, hnil, rfl⟩
  | importFrom =>
    obtain ⟨⟨v, rest⟩, hr, he⟩ := Option.map_eq_some_iff.mp h
    cases he
    obtain ⟨lead, link, hlead, hbinding, hlink, href, hsplit⟩ := BindingShape.read_sound hr
    obtain ⟨t, q, q', ht, hq, hq', -, hm, htail⟩ := Shape.quoted_read_sound href
    have ht : t = [] := describes_literal.mp ht
    subst ht
    rw [htail] at hsplit
    exact ⟨lead ++ v.binding ++ link, q, q', [], .seq (.seq hlead hbinding) hlink,
      isQuote_of_isPlainQuote hq, isQuote_of_isPlainQuote hq', hm, hnil, by simp [hsplit]⟩

/-- What a reader reads is a head and a quoted specifier. -/
theorem reader_sound {k : ReferenceKind} {s m left : List Char} (hs : PlainText s)
    (h : k.reader s = some (m, left)) :
    ∃ w q q' t, k.head.Describes w ∧ Shape.isQuote q = true ∧ Shape.isQuote q' = true ∧
      (∀ c ∈ m, Shape.isQuote c = false) ∧ k.closing.Describes t ∧
      s = w ++ q :: (m ++ q' :: (t ++ left)) := by
  obtain ⟨w, q, q', t, hw, hq, hq', hm, ht, he⟩ := cut_of_reader h
  have hm' := hs.not_isQuote (fun c hc => by simp [he, hc]) hm
  exact ⟨w, q, q', t, hw, hq, hq', hm', ht, he⟩

theorem exists_reader {k : ReferenceKind} {w m t left : List Char} {q q' : Char}
    (hw : k.head.Describes w) (hq : Shape.isPlainQuote q = true)
    (hq' : Shape.isPlainQuote q' = true) (hne : m ≠ [])
    (hm : ∀ c ∈ m, Shape.isQuote c = false) (ht : k.closing.Describes t) :
    ∃ v, k.reader (w ++ q :: (m ++ q' :: (t ++ left))) = some v := by
  have hcall {keyword : String} (hk : Shape.IsKeyword keyword)
      (hh : (Shape.callHead keyword).Describes w) (hc : (Shape.blanks ++ literal ")").Describes t) :
      ∃ v, (Shape.call keyword).read (w ++ q :: (m ++ q' :: (t ++ left))) = some v := by
    obtain ⟨b, _, hb, hend, rfl⟩ := describes_append.mp hc
    rw [describes_literal.mp hend]
    exact ⟨(m, left), (Shape.call_read_iff hk).mpr ⟨w, q, q', b, hh, isQuote_of_isPlainQuote hq,
      isQuote_of_isPlainQuote hq', hne, hm, describes_run.mp hb, by simp⟩⟩
  have hm' : ∀ c ∈ m, Shape.isPlainQuote c = false := fun c hc =>
    (Bool.or_eq_false_iff.mp (hm c hc)).1
  cases k with
  | require => exact hcall Shape.isKeyword_require hw ht
  | dynamicImport => exact hcall Shape.isKeyword_import hw ht
  | sideEffect =>
    rw [describes_literal.mp ht]
    exact Shape.exists_quoted_read hw hq hq' hne hm'
  | importFrom =>
    obtain ⟨_, link, hfirst, hlink, rfl⟩ := describes_append.mp hw
    obtain ⟨lead, binding, hlead, hbinding, rfl⟩ := describes_append.mp hfirst
    rw [describes_literal.mp ht, List.append_assoc, List.append_assoc]
    have hquoted : ∃ v, Shape.importFrom.reference.read ([] ++ q :: (m ++ q' :: left)) = some v :=
      Shape.exists_quoted_read (.literal "") hq hq' hne hm'
    obtain ⟨v, hv⟩ := BindingShape.exists_read hlead hbinding hlink hquoted
    exact ⟨_, Option.map_eq_some_iff.mpr ⟨v, hv, rfl⟩⟩

theorem closing_inj {k : ReferenceKind} {t t' left left' : List Char} (ht : k.closing.Describes t)
    (ht' : k.closing.Describes t') (h : t ++ left = t' ++ left') : left = left' := by
  have hcall (hc : (Shape.blanks ++ literal ")").Describes t)
      (hc' : (Shape.blanks ++ literal ")").Describes t') : left = left' := by
    obtain ⟨b, _, hb, hend, rfl⟩ := describes_append.mp hc
    obtain ⟨b', _, hb', hend', rfl⟩ := describes_append.mp hc'
    rw [describes_literal.mp hend, describes_literal.mp hend', List.append_assoc,
      List.append_assoc] at h
    have hcut := append_cons_inj_of_first (p := (!isBlank ·))
      (fun c hc => by simp [describes_run.mp hb c hc])
      (fun c hc => by simp [describes_run.mp hb' c hc]) (by decide) (by decide) h
    exact hcut.2.2
  cases k with
  | require => exact hcall ht ht'
  | dynamicImport => exact hcall ht ht'
  | sideEffect => rwa [describes_literal.mp ht, describes_literal.mp ht'] at h
  | importFrom => rwa [describes_literal.mp ht, describes_literal.mp ht'] at h

/-- Up to the first quote of a text stands a head, if anything is read from it. -/
theorem head_of_reader {k : ReferenceKind} {w r m left : List Char} {q : Char}
    (hplain : PlainText (w ++ q :: r)) (hw : ∀ c ∈ w, Shape.isQuote c = false)
    (hq : Shape.isQuote q = true) (h : k.reader (w ++ q :: r) = some (m, left)) :
    k.head.Describes w ∧ ∃ q' t, Shape.isQuote q' = true ∧
      (∀ c ∈ m, Shape.isQuote c = false) ∧ k.closing.Describes t ∧ r = m ++ q' :: (t ++ left) := by
  obtain ⟨w', p, q', t, hw', hp, hq', hm, ht, hs⟩ := reader_sound hplain h
  have hplain' : PlainText w' := hplain.of_subset fun c hc => by rw [hs]; simp [hc]
  obtain ⟨rfl, -, rfl⟩ :=
    append_cons_inj_of_first hw (not_isQuote_of_mem_head hw' hplain') hq hp hs
  exact ⟨hw', q', t, hq', hm, ht, rfl⟩

theorem reader_eq {k : ReferenceKind} {w m t left : List Char} {q q' : Char}
    (hplain : PlainText (w ++ q :: (m ++ q' :: (t ++ left)))) (hw : k.head.Describes w)
    (hq : Shape.isPlainQuote q = true) (hq' : Shape.isPlainQuote q' = true) (hne : m ≠ [])
    (hm : ∀ c ∈ m, Shape.isQuote c = false) (ht : k.closing.Describes t) :
    k.reader (w ++ q :: (m ++ q' :: (t ++ left))) = some (m, left) := by
  have hsome : ∃ v, k.reader (w ++ q :: (m ++ q' :: (t ++ left))) = some v :=
    exists_reader hw hq hq' hne hm ht
  obtain ⟨⟨m', left'⟩, hr⟩ := hsome
  have hwquote := not_isQuote_of_mem_head hw (hplain.of_subset fun c hc => by simp [hc])
  obtain ⟨-, p, t', hp, hm', ht', hrest⟩ :=
    head_of_reader hplain hwquote (isQuote_of_isPlainQuote hq) hr
  obtain ⟨rfl, -, htail⟩ := append_cons_inj_of_first hm hm' (isQuote_of_isPlainQuote hq') hp hrest
  rw [hr, closing_inj ht ht' htail]

section Quiet

variable {k : ReferenceKind} {before : Option Char} {piece r later : List Char} {q : Char}

/-- Nothing is read from a piece of text without quotes if no head ends with it. -/
theorem quiet_of_heads (seg : List Char) (hplain : PlainText (piece ++ (seg ++ q :: r)))
    (hquote : ∀ c ∈ piece ++ seg, Shape.isQuote c = false) (hq : Shape.isQuote q = true)
    (h : ∀ p c u, piece = p ++ c :: u → wordMayFollow (lastOr before p) = true →
      ¬ k.head.Describes (c :: (u ++ seg))) :
    Quiet k.reader before piece (seg ++ q :: r) := by
  intro p c u hpiece hw
  have he : c :: (u ++ (seg ++ q :: r)) = c :: (u ++ seg) ++ q :: r := by simp
  have htext : c :: (u ++ seg) ++ q :: r <:+ piece ++ (seg ++ q :: r) := ⟨p, by simp [hpiece]⟩
  have hpart : c :: (u ++ seg) <:+ piece ++ seg := ⟨p, by simp [hpiece]⟩
  rw [he]
  cases hr : k.reader (c :: (u ++ seg) ++ q :: r) with
  | none => rfl
  | some v =>
    have hhead := head_of_reader (hplain.of_subset htext.subset)
      (fun d hd => hquote d (hpart.subset hd)) hq hr
    exact absurd hhead.1 (h p c u hpiece hw)

/-- Nothing is read from text that no second quote follows. -/
theorem quiet_of_unpaired (hplain : PlainText (piece ++ q :: r))
    (hquote : ∀ c ∈ piece, Shape.isQuote c = false) (hq : Shape.isQuote q = true)
    (hr : ∀ c ∈ r, Shape.isQuote c = false) : Quiet k.reader before piece (q :: r) := by
  intro p c u hpiece hw
  have htext : c :: u ++ q :: r <:+ piece ++ q :: r := ⟨p, by simp [hpiece]⟩
  have hpart : c :: u <:+ piece := ⟨p, hpiece.symm⟩
  rw [← List.cons_append]
  cases hread : k.reader (c :: u ++ q :: r) with
  | none => rfl
  | some v =>
    obtain ⟨-, q', t, hq', -, -, hrest⟩ := head_of_reader (hplain.of_subset htext.subset)
      (fun d hd => hquote d (hpart.subset hd)) hq hread
    rw [hr q' (by simp [hrest])] at hq'
    cases hq'

/-- Nothing is read from where no word begins. -/
theorem quiet_of_not_isWord (hplain : PlainText (piece ++ later))
    (h : ∀ c ∈ piece, isWord c = false) : Quiet k.reader before piece later := by
  intro p c u hpiece hw
  have htext : c :: (u ++ later) <:+ piece ++ later := ⟨p, by simp [hpiece]⟩
  cases hread : k.reader (c :: (u ++ later)) with
  | none => rfl
  | some v =>
    obtain ⟨w, q, q', t, hhead, -, -, -, -, hs⟩ :=
      reader_sound (hplain.of_subset htext.subset) hread
    obtain ⟨d, w', rfl, hd⟩ := keyword_of_head hhead
    obtain ⟨rfl, -⟩ := List.cons.inj hs
    rw [h c (by simp [hpiece])] at hd
    cases hd

end Quiet

end ReferenceKind

end ImportLedger
