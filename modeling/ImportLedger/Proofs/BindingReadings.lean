import ImportLedger.Proofs.BindingGrammar

/-! Binding statements are told apart by their texts. At most one derivation of a kind begins a
text, so that a reader reads exactly what is derived. -/

namespace ImportLedger

open Text

namespace Grammar

/-- A text that does not go on with a class of characters. -/
def Past (p : Char → Bool) (s : List Char) : Prop := ∀ c ∈ s.head?, p c = false

section Cuts

variable {p : Char → Bool} {c : Char} {s t u v u' v' : List Char}

@[simp] theorem past_nil : Past p [] := by simp [Past]

@[simp] theorem past_cons : Past p (c :: s) ↔ p c = false := by simp [Past]

theorem past_append (hs : ∀ c ∈ s, p c = false) (ht : Past p t) : Past p (s ++ t) := by
  cases s with
  | nil => exact ht
  | cons c s => exact past_cons.mpr (hs c List.mem_cons_self)

/-- A run of a class is cut off where it ends. -/
theorem takeWhile_append_of_past (hs : ∀ c ∈ s, p c = true) (ht : Past p t) :
    (s ++ t).takeWhile p = s := by
  rw [List.takeWhile_append_of_pos hs]
  cases t with
  | nil => simp
  | cons c t => simp [past_cons.mp ht]

/-- A text is cut in one way only where a run of a class ends. -/
theorem append_inj_of_past (hu : ∀ c ∈ u, p c = true) (hu' : ∀ c ∈ u', p c = true)
    (hv : Past p v) (hv' : Past p v') (h : u ++ v = u' ++ v') : u = u' ∧ v = v' := by
  have he : u = u' := by
    rw [← takeWhile_append_of_past hu hv, h, takeWhile_append_of_past hu' hv']
  exact ⟨he, List.append_cancel_left (he ▸ h)⟩

end Cuts

section Characters

variable {c : Char}

theorem not_isTokenPart_of_isBlank (h : isBlank c = true) : isTokenPart c = false := by
  have hne : c ≠ '$' := by
    rintro rfl
    exact absurd h (by decide)
  simp [isTokenPart, not_isWord_of_isBlank h, hne]

theorem not_isBlank_of_isTokenPart (h : isTokenPart c = true) : isBlank c = false := by
  apply Bool.eq_false_iff.mpr
  intro hb
  rw [not_isTokenPart_of_isBlank hb] at h
  cases h

theorem Name.isTokenPart_of_mem {s : List Char} (h : Name s) : ∀ c ∈ s, isTokenPart c = true := by
  obtain ⟨hc, hs⟩ := h
  exact List.forall_mem_cons.mpr ⟨isTokenPart_of_isTokenStart hc, hs⟩

theorem name_from : Name "from".toList := .intro (by decide) (forall_mem_of_all (by decide))

theorem name_type : Name "type".toList := .intro (by decide) (forall_mem_of_all (by decide))

theorem name_as : Name "as".toList := .intro (by decide) (forall_mem_of_all (by decide))

end Characters

/-- What joins the bound text of an import to its specifier, up to the opening quote. -/
inductive Linked : List Char → Prop
  | intro {b b' s : List Char} {q : Char} (hb : Blanks b) (hb' : Blanks b')
    (hq : Shape.isPlainQuote q = true) : Linked (b ++ ("from".toList ++ (b' ++ q :: s)))

/-- What may follow the first name of an import. -/
inductive AfterName : List Char → Prop
  | comma {b s : List Char} (hb : Blanks b) : AfterName (b ++ ',' :: s)
  | linked {s : List Char} (h : Linked s) : AfterName s

section Names

variable {n n' u u' : List Char}

theorem Blanks.past_tokenPart {b s : List Char} (hb : Blanks b) (hs : Past isTokenPart s) :
    Past isTokenPart (b ++ s) :=
  past_append (fun c hc => not_isTokenPart_of_isBlank (hb c hc)) hs

theorem Blanks.past_tokenPart_of_ne_nil {b s : List Char} (hb : Blanks b) (hne : b ≠ []) :
    Past isTokenPart (b ++ s) := by
  obtain ⟨c, r, rfl⟩ := List.exists_cons_of_ne_nil hne
  exact past_cons.mpr (not_isTokenPart_of_isBlank (hb c List.mem_cons_self))

theorem Blanks.append_inj {b b' s s' : List Char} (hb : Blanks b) (hb' : Blanks b')
    (hs : Past isBlank s) (hs' : Past isBlank s') (h : b ++ s = b' ++ s') : b = b' ∧ s = s' :=
  append_inj_of_past hb hb' hs hs' h

theorem not_isTokenPart_of_isPlainQuote {q : Char} (h : Shape.isPlainQuote q = true) :
    isTokenPart q = false := by
  simp only [Shape.isPlainQuote, Bool.or_eq_true, beq_iff_eq] at h
  rcases h with rfl | rfl <;> decide

theorem Blanks.past_tokenPart_quote {b s : List Char} {q : Char} (hb : Blanks b)
    (hq : Shape.isPlainQuote q = true) : Past isTokenPart (b ++ q :: s) :=
  hb.past_tokenPart (past_cons.mpr (not_isTokenPart_of_isPlainQuote hq))

theorem not_isBlank_of_isPlainQuote {q : Char} (h : Shape.isPlainQuote q = true) :
    isBlank q = false := by
  simp only [Shape.isPlainQuote, Bool.or_eq_true, beq_iff_eq] at h
  rcases h with rfl | rfl <;> decide

/-- A name and what follows it, if it may follow a name: either the name ends before it, or it is
the word `from` right before a quoted specifier. -/
theorem AfterName.cases_tokenPart (h : AfterName u) : Past isTokenPart u ∨
    ∃ b q s, Blanks b ∧ Shape.isPlainQuote q = true ∧ u = "from".toList ++ (b ++ q :: s) := by
  cases h with
  | comma hb => exact .inl (hb.past_tokenPart (past_cons.mpr (by decide)))
  | linked h =>
    obtain @⟨b, b', s, q, hb, hb', hq⟩ := h
    by_cases hne : b = []
    · subst hne
      exact .inr ⟨b', q, s, hb', hq, rfl⟩
    · exact .inl (hb.past_tokenPart_of_ne_nil hne)

theorem not_afterName_quote {b s : List Char} {q : Char} (hb : Blanks b)
    (hq : Shape.isPlainQuote q = true) : ¬ AfterName (b ++ q :: s) := by
  intro h
  generalize he : b ++ q :: s = u at h
  have hquote : Past isBlank (q :: s) := past_cons.mpr (not_isBlank_of_isPlainQuote hq)
  cases h with
  | comma hb' =>
    obtain ⟨-, hs⟩ := hb.append_inj hb' hquote (past_cons.mpr (by decide)) he
    rw [(List.cons.inj hs).1] at hq
    exact absurd hq (by decide)
  | linked h =>
    obtain @⟨b', b'', s', q', hb', hb'', hq'⟩ := h
    obtain ⟨-, hs⟩ := hb.append_inj hb' hquote (past_cons.mpr (by decide)) he
    rw [(List.cons.inj hs).1] at hq
    exact absurd hq (by decide)

/-- The token that begins a name and what follows it: the name, or the name with the word `from`
behind it. -/
theorem Name.token_of_afterName {t w : List Char} (hn : Name n) (hu : AfterName u)
    (ht : ∀ c ∈ t, isTokenPart c = true) (hw : Past isTokenPart w) (h : n ++ u = t ++ w) :
    (n = t ∧ u = w) ∨ n ++ "from".toList = t ∧
      ∃ b q s, Blanks b ∧ Shape.isPlainQuote q = true ∧ w = b ++ q :: s := by
  rcases hu.cases_tokenPart with hpast | ⟨b, q, s, hb, hq, rfl⟩
  · exact .inl (append_inj_of_past hn.isTokenPart_of_mem ht hpast hw h)
  · have hfrom : ∀ c ∈ n ++ "from".toList, isTokenPart c = true :=
      List.forall_mem_append.mpr ⟨hn.isTokenPart_of_mem, name_from.isTokenPart_of_mem⟩
    rw [← List.append_assoc] at h
    obtain ⟨he, hrest⟩ := append_inj_of_past hfrom ht (hb.past_tokenPart_quote hq) hw h
    exact .inr ⟨he, b, q, s, hb, hq, hrest.symm⟩

/-- The first name of an import ends in one place only. -/
theorem Name.append_inj (hn : Name n) (hn' : Name n') (hu : AfterName u) (hu' : AfterName u')
    (h : n ++ u = n' ++ u') : n = n' ∧ u = u' := by
  rcases hu'.cases_tokenPart with hpast | ⟨b, q, s, hb, hq, rfl⟩
  -- The other name ends its token, so this one ends there or before a word `from` of its own.
  · rcases hn.token_of_afterName hu hn'.isTokenPart_of_mem hpast h with
      he | ⟨-, b, q, s, hb, hq, rfl⟩
    · exact he
    · exact absurd hu' (not_afterName_quote hb hq)
  · have htoken := List.forall_mem_append.mpr ⟨hn'.isTokenPart_of_mem, name_from.isTokenPart_of_mem⟩
    have h' : n ++ u = n' ++ "from".toList ++ (b ++ q :: s) := by rw [h, List.append_assoc]
    rcases hn.token_of_afterName hu htoken (hb.past_tokenPart_quote hq) h' with ⟨-, rfl⟩ | ⟨he, -⟩
    · exact absurd hu (not_afterName_quote hb hq)
    · obtain rfl := List.append_cancel_right he
      exact ⟨rfl, List.append_cancel_left h⟩

end Names

section Heads

/-- What a bound text may begin with. -/
def mayBegin (c : Char) : Bool := isTokenStart c || ['{', '[', '*'].contains c

theorem not_isBlank_of_mayBegin {c : Char} (h : mayBegin c = true) : isBlank c = false := by
  rcases Bool.or_eq_true_iff.mp h with hstart | hmark
  · exact not_isBlank_of_isTokenPart (isTokenPart_of_isTokenStart hstart)
  · have hall : ∀ c ∈ ['{', '[', '*'], isBlank c = false := forall_mem_of_all (by decide)
    exact hall c (List.contains_iff_mem.mp hmark)

variable {s u : List Char}

theorem Name.exists_head (hs : Name s) : ∃ c t, s = c :: t ∧ isTokenStart c = true := by
  obtain ⟨hc, -⟩ := hs
  exact ⟨_, _, rfl, hc⟩

theorem Name.exists_mayBegin (hs : Name s) : ∃ c t, s = c :: t ∧ mayBegin c = true := by
  obtain ⟨c, t, rfl, hc⟩ := hs.exists_head
  exact ⟨c, t, rfl, by simp [mayBegin, hc]⟩

theorem Target.exists_mayBegin (hs : Target s) : ∃ c t, s = c :: t ∧ mayBegin c = true := by
  cases hs with
  | name hn => exact hn.exists_mayBegin
  | braced hb =>
    obtain ⟨-⟩ := hb
    exact ⟨_, _, rfl, by decide⟩
  | bracketed hb =>
    obtain ⟨-⟩ := hb
    exact ⟨_, _, rfl, by decide⟩

theorem Group.exists_mayBegin (hs : Group s) : ∃ c t, s = c :: t ∧ mayBegin c = true := by
  cases hs with
  | braced hb =>
    obtain ⟨-⟩ := hb
    exact ⟨_, _, rfl, by decide⟩
  | all ha =>
    obtain ⟨-⟩ := ha
    exact ⟨_, _, rfl, by decide⟩

theorem exists_mayBegin_append (h : ∃ c t, s = c :: t ∧ mayBegin c = true) :
    ∃ c t, s ++ u = c :: t ∧ mayBegin c = true := by
  obtain ⟨c, t, rfl, hc⟩ := h
  exact ⟨c, t ++ u, rfl, hc⟩

theorem Imported.exists_mayBegin (hs : Imported s) : ∃ c t, s = c :: t ∧ mayBegin c = true := by
  cases hs with
  | default hn => exact hn.exists_mayBegin
  | both hn => exact exists_mayBegin_append hn.exists_mayBegin
  | group hg => exact hg.exists_mayBegin

theorem Marker.exists_mayBegin {type : List Char} (ht : Marker "type" type)
    (hs : ∃ c t, s = c :: t ∧ mayBegin c = true) :
    ∃ c t, type ++ s = c :: t ∧ mayBegin c = true := by
  cases ht with
  | absent => exact hs
  | present => exact ⟨'t', _, rfl, by decide⟩

theorem past_blank_of_mayBegin (h : ∃ c t, s = c :: t ∧ mayBegin c = true) :
    Past isBlank (s ++ u) := by
  obtain ⟨c, t, rfl, hc⟩ := h
  exact past_cons.mpr (not_isBlank_of_mayBegin hc)

theorem Name.past_blank (hs : Name s) : Past isBlank (s ++ u) :=
  past_blank_of_mayBegin hs.exists_mayBegin

theorem Group.past_blank (hs : Group s) : Past isBlank (s ++ u) :=
  past_blank_of_mayBegin hs.exists_mayBegin

theorem Imported.past_blank (hs : Imported s) : Past isBlank (s ++ u) :=
  past_blank_of_mayBegin hs.exists_mayBegin

end Heads

section Parts

variable {s s' u u' : List Char}

theorem Enclosed.append_inj {opening closing : Char} (hs : Enclosed opening closing s)
    (hs' : Enclosed opening closing s') (h : s ++ u = s' ++ u') : s = s' ∧ u = u' := by
  obtain ⟨hs⟩ := hs
  obtain ⟨hs'⟩ := hs'
  have hno {t : List Char} (ht : closing ∉ t) : ∀ c ∈ t, (c == closing) = false :=
    fun c hc => beq_eq_false_iff_ne.mpr fun he => ht (he ▸ hc)
  simp only [List.cons_append, List.append_assoc] at h
  obtain ⟨rfl, -, rfl⟩ := append_cons_inj_of_first (hno hs) (hno hs') (beq_self_eq_true closing)
    (beq_self_eq_true closing) (List.cons.inj h).2
  exact ⟨rfl, rfl⟩

theorem Name.append_ne_enclosed {opening closing : Char} (hs : Name s)
    (hs' : Enclosed opening closing s') (ho : isTokenStart opening = false) :
    s ++ u ≠ s' ++ u' := by
  obtain ⟨hc, -⟩ := hs
  obtain ⟨-⟩ := hs'
  intro h
  rw [(List.cons.inj h).1, ho] at hc
  cases hc

theorem Enclosed.append_ne {opening opening' closing closing' : Char}
    (hs : Enclosed opening closing s) (hs' : Enclosed opening' closing' s')
    (hne : opening ≠ opening') : s ++ u ≠ s' ++ u' := by
  obtain ⟨-⟩ := hs
  obtain ⟨-⟩ := hs'
  exact fun h => hne (List.cons.inj h).1

theorem Target.append_inj (hs : Target s) (hs' : Target s') (hu : Past isTokenPart u)
    (hu' : Past isTokenPart u') (h : s ++ u = s' ++ u') : s = s' ∧ u = u' := by
  cases hs with
  | name hn =>
    cases hs' with
    | name hn' => exact append_inj_of_past hn.isTokenPart_of_mem hn'.isTokenPart_of_mem hu hu' h
    | braced hb => exact absurd h (hn.append_ne_enclosed hb (by decide))
    | bracketed hb => exact absurd h (hn.append_ne_enclosed hb (by decide))
  | braced hb =>
    cases hs' with
    | name hn => exact absurd h.symm (hn.append_ne_enclosed hb (by decide))
    | braced hb' => exact hb.append_inj hb' h
    | bracketed hb' => exact absurd h (hb.append_ne hb' (by decide))
  | bracketed hb =>
    cases hs' with
    | name hn => exact absurd h.symm (hn.append_ne_enclosed hb (by decide))
    | braced hb' => exact absurd h (hb.append_ne hb' (by decide))
    | bracketed hb' => exact hb.append_inj hb' h

theorem Alias.append_inj (hs : Alias s) (hs' : Alias s') (hu : AfterName u) (hu' : AfterName u')
    (h : s ++ u = s' ++ u') : s = s' ∧ u = u' := by
  obtain @⟨b, b', n, hb, hb', -, hn⟩ := hs
  obtain @⟨d, d', n', hd, hd', -, hn'⟩ := hs'
  have has {t : List Char} : Past isBlank ("as".toList ++ t) := past_cons.mpr (by decide)
  simp only [List.cons_append, List.append_assoc] at h
  obtain ⟨rfl, hword⟩ := hb.append_inj hd has has (List.cons.inj h).2
  obtain ⟨rfl, hrest⟩ := hb'.append_inj hd' hn.past_blank hn'.past_blank
    (List.append_cancel_left hword)
  obtain ⟨rfl, rfl⟩ := hn.append_inj hn' hu hu' hrest
  exact ⟨rfl, rfl⟩

theorem Group.append_inj (hs : Group s) (hs' : Group s') (hu : AfterName u) (hu' : AfterName u')
    (h : s ++ u = s' ++ u') : s = s' ∧ u = u' := by
  have hne {s s' u u' : List Char} (hb : Enclosed '{' '}' s) (ha : Alias s') :
      s ++ u ≠ s' ++ u' := by
    obtain ⟨-⟩ := hb
    obtain ⟨-⟩ := ha
    exact fun h => absurd (List.cons.inj h).1 (by decide)
  cases hs with
  | braced hb =>
    cases hs' with
    | braced hb' => exact hb.append_inj hb' h
    | all ha => exact absurd h (hne hb ha)
  | all ha =>
    cases hs' with
    | braced hb => exact absurd h.symm (hne hb ha)
    | all ha' => exact ha.append_inj ha' hu hu' h

theorem Name.append_ne_group (hs : Name s) (hs' : Group s') : s ++ u ≠ s' ++ u' := by
  cases hs' with
  | braced hb => exact hs.append_ne_enclosed hb (by decide)
  | all ha =>
    obtain ⟨hc, -⟩ := hs
    obtain ⟨-⟩ := ha
    intro h
    rw [(List.cons.inj h).1] at hc
    exact absurd hc (by decide)

theorem not_linked_comma {b : List Char} (hb : Blanks b) : ¬ Linked (b ++ ',' :: s) := by
  intro h
  generalize he : b ++ ',' :: s = u at h
  obtain ⟨hb', -, -⟩ := h
  have hrest := (hb.append_inj hb' (past_cons.mpr (by decide)) (past_cons.mpr (by decide)) he).2
  exact absurd (List.cons.inj hrest).1 (by decide)

theorem both_append_inj {n n' b b' d d' g g' : List Char} (hn : Name n) (hn' : Name n')
    (hb : Blanks b) (hb' : Blanks b') (hd : Blanks d) (hd' : Blanks d') (hg : Group g)
    (hg' : Group g') (hu : AfterName u) (hu' : AfterName u')
    (h : n ++ (b ++ ',' :: (d ++ g)) ++ u = n' ++ (b' ++ ',' :: (d' ++ g')) ++ u') :
    n ++ (b ++ ',' :: (d ++ g)) = n' ++ (b' ++ ',' :: (d' ++ g')) ∧ u = u' := by
  have hcomma {t : List Char} : Past isBlank (',' :: t) := past_cons.mpr (by decide)
  simp only [List.append_assoc, List.cons_append] at h
  obtain ⟨rfl, hrest⟩ := hn.append_inj hn' (.comma hb) (.comma hb') h
  obtain ⟨rfl, hlist⟩ := hb.append_inj hb' hcomma hcomma hrest
  obtain ⟨rfl, hgroup⟩ := hd.append_inj hd' hg.past_blank hg'.past_blank (List.cons.inj hlist).2
  obtain ⟨rfl, rfl⟩ := hg.append_inj hg' hu hu' hgroup
  exact ⟨rfl, rfl⟩

theorem Imported.append_inj (hs : Imported s) (hs' : Imported s') (hu : Linked u)
    (hu' : Linked u') (h : s ++ u = s' ++ u') : s = s' ∧ u = u' := by
  have hmixed {s n b d g u u' : List Char} (hs : Name s) (hn : Name n) (hb : Blanks b)
      (hu : Linked u) : s ++ u ≠ n ++ (b ++ ',' :: (d ++ g)) ++ u' := by
    intro h
    simp only [List.append_assoc, List.cons_append] at h
    obtain ⟨-, rfl⟩ := hs.append_inj hn (.linked hu) (.comma hb) h
    exact not_linked_comma hb hu
  cases hs with
  | default hn =>
    cases hs' with
    | default hn' => exact hn.append_inj hn' (.linked hu) (.linked hu') h
    | both hn' hb hd hg => exact absurd h (hmixed hn hn' hb hu)
    | group hg => exact absurd h (hn.append_ne_group hg)
  | both hn hb hd hg =>
    cases hs' with
    | default hn' => exact absurd h.symm (hmixed hn' hn hb hu')
    | both hn' hb' hd' hg' =>
      exact both_append_inj hn hn' hb hb' hd hd' hg hg' (.linked hu) (.linked hu') h
    | group hg' =>
      rw [List.append_assoc] at h
      exact absurd h (hn.append_ne_group hg')
  | group hg =>
    cases hs' with
    | default hn => exact absurd h.symm (hn.append_ne_group hg)
    | both hn hb hd hg' =>
      rw [List.append_assoc] at h
      exact absurd h.symm (hn.append_ne_group hg)
    | group hg' => exact hg.append_inj hg' (.linked hu) (.linked hu') h

end Parts

section Tails

variable {m m' s s' u u' : List Char}

theorem Quoted.append_inj {quotes : Char → Bool} (hs : Quoted quotes m s)
    (hs' : Quoted quotes m' s') (h : s ++ u = s' ++ u') : m = m' ∧ s = s' := by
  obtain ⟨-, hq, -, hm⟩ := hs
  obtain ⟨-, hq', -, hm'⟩ := hs'
  simp only [List.append_assoc, List.cons_append, List.nil_append] at h
  obtain ⟨hfirst, hrest⟩ := List.cons.inj h
  obtain ⟨rfl, hlast, -⟩ := append_cons_inj_of_first hm hm' hq hq' hrest
  exact ⟨rfl, by rw [hfirst, hlast]⟩

theorem read_of_quoted (h : Quoted Shape.isPlainQuote m s) (left : List Char) :
    Shape.importFrom.reference.read (s ++ left) = some (m, left) := by
  obtain ⟨⟨m', left'⟩, hr⟩ := exists_read_of_quoted h left
  obtain ⟨t, ht, he⟩ := quoted_of_read hr
  obtain ⟨rfl, rfl⟩ := h.append_inj ht he
  rw [hr, List.append_cancel_left he]

theorem Call.append_inj {keyword : String} (hk : Shape.IsKeyword keyword) (hs : Call keyword m s)
    (hs' : Call keyword m' s') (h : s ++ u = s' ++ u') : m = m' ∧ s = s' := by
  -- The reader of a call reads all of either.
  have hread : (Shape.call keyword).read (s ++ u) = some (m, u) := (call_read hk).mpr ⟨s, hs, rfl⟩
  rw [h, (call_read hk).mpr ⟨s', hs', rfl⟩] at hread
  obtain ⟨rfl, rfl⟩ := Prod.mk.inj (Option.some.inj hread)
  exact ⟨rfl, List.append_cancel_right h⟩

theorem Call.past_blank {keyword : String} (hk : Shape.IsKeyword keyword)
    (hs : Call keyword m s) : Past isBlank (s ++ u) := by
  obtain ⟨-, -, -, -⟩ := hs
  obtain ⟨c, r, hcr⟩ := List.exists_cons_of_ne_nil hk.1
  rw [hcr]
  exact past_cons.mpr (hk.2 c (by simp [hcr])).1

/-- A word that may be left out is told from what may stand without it. -/
theorem Marker.append_inj {word : String} {a a' : List Char} (ha : Marker word a)
    (ha' : Marker word a') (hu : Past isBlank u) (hu' : Past isBlank u')
    (hne : ∀ b, Blanks b → b ≠ [] → u ≠ word.toList ++ b ++ u')
    (hne' : ∀ b, Blanks b → b ≠ [] → u' ≠ word.toList ++ b ++ u) (h : a ++ u = a' ++ u') :
    a = a' ∧ u = u' := by
  cases ha with
  | absent =>
    cases ha' with
    | absent => exact ⟨rfl, h⟩
    | present hb hb' => exact absurd h (hne _ hb hb')
  | present hb hb' =>
    cases ha' with
    | absent => exact absurd h.symm (hne' _ hb hb')
    | present hd =>
      rw [List.append_assoc, List.append_assoc] at h
      obtain ⟨rfl, hrest⟩ := hb.append_inj hd hu hu' (List.append_cancel_left h)
      exact ⟨rfl, hrest⟩

theorem await_append_inj {wait wait' : List Char} (hw : Marker "await" wait)
    (hw' : Marker "await" wait') (hs : Call "import" m s) (hs' : Call "import" m' s')
    (h : wait ++ (s ++ u) = wait' ++ (s' ++ u')) : wait = wait' ∧ m = m' ∧ s = s' := by
  have hne {m s u v : List Char} (hs : Call "import" m s) (b : List Char) :
      s ++ u ≠ "await".toList ++ b ++ v := by
    obtain ⟨-, -, -, -⟩ := hs
    exact fun h => absurd (List.cons.inj h).1 (by decide)
  obtain ⟨rfl, hcall⟩ := hw.append_inj hw' (hs.past_blank Shape.isKeyword_import)
    (hs'.past_blank Shape.isKeyword_import) (fun b _ _ => hne hs b) (fun b _ _ => hne hs' b) h
  exact ⟨rfl, hs.append_inj Shape.isKeyword_import hs' hcall⟩

theorem await_past_blank {wait : List Char} (hw : Marker "await" wait) (hs : Call "import" m s) :
    Past isBlank (wait ++ (s ++ u)) := by
  cases hw with
  | absent =>
    rw [List.nil_append]
    exact hs.past_blank Shape.isKeyword_import
  | present => exact past_cons.mpr (by decide)

/-- What an import binds begins with a name that something may follow, or it is a group. -/
theorem Imported.cases_name (hs : Imported s) (hu : Linked u) :
    (∃ n w, Name n ∧ AfterName w ∧ s ++ u = n ++ w) ∨ Group s := by
  cases hs with
  | default hn => exact .inl ⟨s, u, hn, .linked hu, rfl⟩
  | @both n b b' g hn hb =>
    refine .inl ⟨n, b ++ ',' :: (b' ++ g ++ u), hn, .comma hb, ?_⟩
    simp only [List.append_assoc, List.cons_append]
  | group hg => exact .inr hg

theorem Name.from_ne {n : List Char} (hn : Name n) : n ++ "from".toList ≠ "from".toList := by
  obtain ⟨-, -⟩ := hn
  exact fun h => List.cons_ne_nil _ _ (List.append_left_eq_self.mp h)

theorem not_afterName_imported {b : List Char} (hs : Imported s) (hb : Blanks b) (hu : Linked u) :
    ¬ AfterName (b ++ (s ++ u)) := by
  intro h
  generalize he : b ++ (s ++ u) = t at h
  cases h with
  | comma hb' =>
    obtain ⟨-, hrest⟩ := hb.append_inj hb' hs.past_blank (past_cons.mpr (by decide)) he
    obtain ⟨c, r, rfl, hc⟩ := hs.exists_mayBegin
    rw [(List.cons.inj hrest).1] at hc
    exact absurd hc (by decide)
  | linked hl =>
    obtain @⟨b', b'', r, q, hb', hb'', hq⟩ := hl
    obtain ⟨-, hrest⟩ := hb.append_inj hb' hs.past_blank (past_cons.mpr (by decide)) he
    rcases hs.cases_name hu with ⟨n, w, hn, hw, hsplit⟩ | hg
    -- The bound text would have to be the word `from`, and a quote comes behind that one.
    · rcases hn.token_of_afterName hw name_from.isTokenPart_of_mem (hb''.past_tokenPart_quote hq)
        (hsplit.symm.trans hrest) with ⟨-, rfl⟩ | ⟨hword, -⟩
      · exact not_afterName_quote hb'' hq hw
      · exact hn.from_ne hword
    · exact name_from.append_ne_group hg hrest.symm

/-- The word `type` after which an import binds something is no name that it binds. -/
theorem Imported.append_ne_type {b : List Char} (hs : Imported s) (hs' : Imported s')
    (hb : Blanks b) (hne : b ≠ []) (hu : Linked u) (hu' : Linked u') :
    s ++ u ≠ "type".toList ++ b ++ (s' ++ u') := by
  intro h
  rw [List.append_assoc] at h
  rcases hs.cases_name hu with ⟨n, w, hn, hw, hsplit⟩ | hg
  · rcases hn.token_of_afterName hw name_type.isTokenPart_of_mem (hb.past_tokenPart_of_ne_nil hne)
      (hsplit.symm.trans h) with ⟨-, rfl⟩ | ⟨he, -⟩
    · exact not_afterName_imported hs' hb hu' hw
    · have hsuffix : "from".toList <:+ "type".toList := ⟨n, he⟩
      exact absurd hsuffix (by decide)
  · exact name_type.append_ne_group hg h.symm

theorem type_append_inj {type type' : List Char} (ht : Marker "type" type)
    (ht' : Marker "type" type') (hs : Imported s) (hs' : Imported s') (hu : Linked u)
    (hu' : Linked u') (h : type ++ (s ++ u) = type' ++ (s' ++ u')) :
    type = type' ∧ s = s' ∧ u = u' := by
  obtain ⟨rfl, hrest⟩ := ht.append_inj ht' hs.past_blank hs'.past_blank
    (fun _ hb hne => hs.append_ne_type hs' hb hne hu hu')
    (fun _ hb hne => hs'.append_ne_type hs hb hne hu' hu) h
  exact ⟨rfl, hs.append_inj hs' hu hu' hrest⟩

end Tails

def keywords : BindingKind → List String
  | .importFrom => ["import"]
  | .require | .dynamicImport => declarators

/-- What may follow the first word of a binding statement and the blanks behind it: the bound text,
and in the end a call or a quoted specifier. -/
inductive Body : BindingKind → (binding specifier tail body : List Char) → Prop
  | require {b b' binding m call : List Char} (ht : Target binding) (hb : Blanks b)
    (hb' : Blanks b') (hc : Call "require" m call) :
    Body .require binding m call (binding ++ (b ++ '=' :: (b' ++ call)))
  | dynamicImport {b b' wait binding m call : List Char} (ht : Target binding) (hb : Blanks b)
    (hb' : Blanks b') (ha : Marker "await" wait) (hc : Call "import" m call) :
    Body .dynamicImport binding m call (binding ++ (b ++ '=' :: (b' ++ (wait ++ call))))
  | importFrom {b b' type binding m s : List Char} (ht : Marker "type" type)
    (hi : Imported binding) (hb : Blanks b) (hb' : Blanks b')
    (hs : Quoted Shape.isPlainQuote m s) :
    Body .importFrom binding m s (type ++ (binding ++ (b ++ ("from".toList ++ (b' ++ s)))))

section Bodies

variable {kind : BindingKind} {binding m tail body whole reference : List Char}

theorem Derives.exists_body (h : Derives kind binding m reference whole) :
    ∃ word ∈ keywords kind, ∃ b tail body, Blanks b ∧ b ≠ [] ∧ Body kind binding m tail body ∧
      whole = word.toList ++ (b ++ body) ∧ reference = shown kind whole tail := by
  cases h with
  | require hw hb hne ht hb' hb'' hc =>
    exact ⟨_, hw, _, _, _, hb, hne, .require ht hb' hb'' hc, rfl, rfl⟩
  | dynamicImport hw hb hne ht hb' hb'' ha hc =>
    exact ⟨_, hw, _, _, _, hb, hne, .dynamicImport ht hb' hb'' ha hc, rfl, rfl⟩
  | importFrom hb hne ht hi hb' hb'' hs he =>
    exact ⟨"import", List.mem_cons_self, _, _, _, hb, hne, .importFrom ht hi hb' hb'' hs, he, rfl⟩

theorem Body.derives {word : String} {b : List Char} (h : Body kind binding m tail body)
    (hw : word ∈ keywords kind) (hb : Blanks b) (hne : b ≠ []) :
    Derives kind binding m (shown kind (word.toList ++ (b ++ body)) tail)
      (word.toList ++ (b ++ body)) := by
  cases h with
  | require ht hb' hb'' hc => exact .require hw hb hne ht hb' hb'' hc
  | dynamicImport ht hb' hb'' ha hc => exact .dynamicImport hw hb hne ht hb' hb'' ha hc
  | importFrom ht hi hb' hb'' hs =>
    obtain rfl := List.mem_singleton.mp hw
    exact .importFrom hb hne ht hi hb' hb'' hs rfl

theorem keywords_subset (kind : BindingKind) : keywords kind ⊆ "import" :: declarators := by
  cases kind with
  | importFrom => exact List.cons_subset_cons _ (List.nil_subset _)
  | require | dynamicImport => exact List.subset_cons_self _ _

theorem isWord_of_mem_keyword {word : String} (hw : word ∈ keywords kind) :
    ∀ c ∈ word.toList, isWord c = true := by
  have hall : ∀ w ∈ "import" :: declarators, w.toList.all isWord = true := by decide
  exact List.all_eq_true.mp (hall word (keywords_subset kind hw))

theorem keyword_nonblank {word : String} (hw : word ∈ keywords kind) :
    ∀ c ∈ word.toList, isBlank c = false :=
  fun c hc => not_isBlank_of_isWord (isWord_of_mem_keyword hw c hc)

theorem keyword_ne_nil {word : String} (hw : word ∈ keywords kind) : word.toList ≠ [] := by
  have hall : ∀ w ∈ "import" :: declarators, w.toList ≠ [] := by decide
  exact hall word (keywords_subset kind hw)

variable {binding' m' tail' body' whole' reference' u u' : List Char}

theorem past_tokenPart_equals {b s : List Char} (hb : Blanks b) :
    Past isTokenPart (b ++ '=' :: s) :=
  hb.past_tokenPart (past_cons.mpr (by decide))

theorem equals_append_inj {b b' d d' s s' : List Char} (ht : Target binding) (ht' : Target binding')
    (hb : Blanks b) (hb' : Blanks b') (hd : Blanks d) (hd' : Blanks d') (hs : Past isBlank s)
    (hs' : Past isBlank s') (h : binding ++ (b ++ '=' :: (d ++ s)) =
      binding' ++ (b' ++ '=' :: (d' ++ s'))) :
    binding = binding' ∧ b = b' ∧ d = d' ∧ s = s' := by
  have hequals {t : List Char} : Past isBlank ('=' :: t) := past_cons.mpr (by decide)
  obtain ⟨rfl, hlink⟩ := ht.append_inj ht' (past_tokenPart_equals hb) (past_tokenPart_equals hb') h
  obtain ⟨rfl, hrest⟩ := hb.append_inj hb' hequals hequals hlink
  obtain ⟨rfl, rfl⟩ := hd.append_inj hd' hs hs' (List.cons.inj hrest).2
  exact ⟨rfl, rfl, rfl, rfl⟩

theorem Linked.of_quoted {b b' s u : List Char} (hb : Blanks b) (hb' : Blanks b')
    (hs : Quoted Shape.isPlainQuote m s) :
    Linked (b ++ ("from".toList ++ (b' ++ (s ++ u)))) := by
  obtain ⟨hq, -⟩ := hs
  exact .intro hb hb' hq

theorem linked_append_inj {b b' d d' s s' : List Char} (hb : Blanks b) (hb' : Blanks b')
    (hd : Blanks d) (hd' : Blanks d') (hs : Quoted Shape.isPlainQuote m s)
    (hs' : Quoted Shape.isPlainQuote m' s')
    (h : b ++ ("from".toList ++ (d ++ (s ++ u))) = b' ++ ("from".toList ++ (d' ++ (s' ++ u')))) :
    b = b' ∧ d = d' ∧ m = m' ∧ s = s' := by
  have hfrom {t : List Char} : Past isBlank ("from".toList ++ t) := past_cons.mpr (by decide)
  have hquote {m s t : List Char} (hs : Quoted Shape.isPlainQuote m s) : Past isBlank (s ++ t) := by
    obtain ⟨hq, -⟩ := hs
    exact past_cons.mpr (not_isBlank_of_isPlainQuote hq)
  obtain ⟨rfl, hword⟩ := hb.append_inj hb' hfrom hfrom h
  obtain ⟨rfl, hrest⟩ := hd.append_inj hd' (hquote hs) (hquote hs') (List.append_cancel_left hword)
  obtain ⟨rfl, rfl⟩ := hs.append_inj hs' hrest
  exact ⟨rfl, rfl, rfl, rfl⟩

theorem Body.append_inj (h : Body kind binding m tail body) (h' : Body kind binding' m' tail' body')
    (he : body ++ u = body' ++ u') : binding = binding' ∧ m = m' ∧ tail = tail' ∧ body = body' := by
  cases h with
  | require ht hb hd hc =>
    cases h' with
    | require ht' hb' hd' hc' =>
      simp only [List.append_assoc, List.cons_append] at he
      obtain ⟨rfl, rfl, rfl, hcall⟩ := equals_append_inj ht ht' hb hb' hd hd'
        (hc.past_blank Shape.isKeyword_require) (hc'.past_blank Shape.isKeyword_require) he
      obtain ⟨rfl, rfl⟩ := hc.append_inj Shape.isKeyword_require hc' hcall
      exact ⟨rfl, rfl, rfl, rfl⟩
  | dynamicImport ht hb hd ha hc =>
    cases h' with
    | dynamicImport ht' hb' hd' ha' hc' =>
      simp only [List.append_assoc, List.cons_append] at he
      obtain ⟨rfl, rfl, rfl, hcall⟩ := equals_append_inj ht ht' hb hb' hd hd'
        (await_past_blank ha hc) (await_past_blank ha' hc') he
      obtain ⟨rfl, rfl, rfl⟩ := await_append_inj ha ha' hc hc' hcall
      exact ⟨rfl, rfl, rfl, rfl⟩
  | importFrom ht hi hb hd hs =>
    cases h' with
    | importFrom ht' hi' hb' hd' hs' =>
      simp only [List.append_assoc] at he
      obtain ⟨rfl, rfl, hlink⟩ := type_append_inj ht ht' hi hi' (.of_quoted hb hd hs)
        (.of_quoted hb' hd' hs') he
      obtain ⟨rfl, rfl, rfl, rfl⟩ := linked_append_inj hb hb' hd hd' hs hs' hlink
      exact ⟨rfl, rfl, rfl, rfl⟩

theorem Body.exists_mayBegin (h : Body kind binding m tail body) :
    ∃ c t, body = c :: t ∧ mayBegin c = true := by
  cases h with
  | require ht => exact exists_mayBegin_append ht.exists_mayBegin
  | dynamicImport ht => exact exists_mayBegin_append ht.exists_mayBegin
  | importFrom ht hi => exact ht.exists_mayBegin (exists_mayBegin_append hi.exists_mayBegin)

theorem Body.past_blank (h : Body kind binding m tail body) : Past isBlank (body ++ u) :=
  past_blank_of_mayBegin h.exists_mayBegin

theorem keyword_append_inj {word word' b b' : List Char} (hw : ∀ c ∈ word, isBlank c = false)
    (hw' : ∀ c ∈ word', isBlank c = false) (hb : Blanks b) (hb' : Blanks b') (hne : b ≠ [])
    (hne' : b' ≠ []) (hu : Past isBlank u) (hu' : Past isBlank u')
    (h : word ++ (b ++ u) = word' ++ (b' ++ u')) : word = word' ∧ b = b' ∧ u = u' := by
  have hpast {b u : List Char} (hb : Blanks b) (hne : b ≠ []) : Past (!isBlank ·) (b ++ u) := by
    obtain ⟨c, r, rfl⟩ := List.exists_cons_of_ne_nil hne
    exact past_cons.mpr (by simp [hb c List.mem_cons_self])
  obtain ⟨rfl, hrest⟩ := append_inj_of_past (p := (!isBlank ·)) (fun c hc => by simp [hw c hc])
    (fun c hc => by simp [hw' c hc]) (hpast hb hne) (hpast hb' hne') h
  obtain ⟨rfl, rfl⟩ := hb.append_inj hb' hu hu' hrest
  exact ⟨rfl, rfl, rfl⟩

/-- At most one derivation of a kind begins a text. -/
theorem Derives.append_inj (h : Derives kind binding m reference whole)
    (h' : Derives kind binding' m' reference' whole') (he : whole ++ u = whole' ++ u') :
    binding = binding' ∧ m = m' ∧ reference = reference' ∧ whole = whole' := by
  obtain ⟨word, hw, b, tail, body, hb, hne, hbody, rfl, rfl⟩ := h.exists_body
  obtain ⟨word', hw', b', tail', body', hb', hne', hbody', rfl, rfl⟩ := h'.exists_body
  rw [List.append_assoc, List.append_assoc, List.append_assoc, List.append_assoc] at he
  obtain ⟨hword, rfl, hrest⟩ := keyword_append_inj (keyword_nonblank hw) (keyword_nonblank hw') hb
    hb' hne hne' hbody.past_blank hbody'.past_blank he
  obtain ⟨rfl, rfl, rfl, rfl⟩ := hbody.append_inj hbody' hrest
  exact ⟨rfl, rfl, by rw [hword], by rw [hword]⟩

theorem read_of_derives (h : Derives kind binding m reference whole) (left : List Char) :
    ∃ v, kind.shape.read (whole ++ left) = some (v, left) ∧ v.binding = binding ∧
      v.specifier = m ∧ shown kind whole v.reference = reference := by
  obtain ⟨⟨v, left'⟩, hread⟩ := exists_read_of_derives h left
  obtain ⟨whole', hs, hv⟩ := derives_of_read hread
  obtain ⟨rfl, rfl, rfl, rfl⟩ := h.append_inj hv hs
  rw [← List.append_cancel_left hs] at hread
  exact ⟨v, hread, rfl, rfl, rfl⟩

end Bodies

end Grammar

end ImportLedger
