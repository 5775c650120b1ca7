import ImportLedger.Proofs.ReferenceSearch
import ImportLedger.Proofs.WrittenBindings

/-! Where a search for binding statements finds nothing. A statement begins with a keyword and a
blank, so only a name that ends in a keyword could begin one by accident, and what follows such a
name in a written statement does not go on as a statement would. -/

namespace ImportLedger

open Text Occurrence Grammar

namespace Grammar

/-- A text that a statement of a kind could go on with, after its first word and the blanks
behind it. -/
def Continues (kind : BindingKind) (t : List Char) : Prop :=
  ∃ binding m tail body left, Body kind binding m tail body ∧ t = body ++ left

variable {kind : BindingKind} {t : List Char}

theorem Continues.past_blank (h : Continues kind t) : Past isBlank t := by
  obtain ⟨_, _, _, body, left, hbody, rfl⟩ := h
  exact hbody.past_blank

theorem Continues.exists_mayBegin (h : Continues kind t) :
    ∃ c s, t = c :: s ∧ mayBegin c = true := by
  obtain ⟨_, _, _, _, left, hbody, rfl⟩ := h
  exact exists_mayBegin_append hbody.exists_mayBegin

theorem not_continues_of_head {c : Char} (h : mayBegin c = false) : ¬ Continues kind (c :: t) := by
  intro hcont
  obtain ⟨d, s, he, hd⟩ := hcont.exists_mayBegin
  rw [← (List.cons.inj he).1, h] at hd
  cases hd

/-- A text that ends an item: after some blanks, no name, no quote, and nothing that a statement
could bind. -/
def EndsItem (t : List Char) : Prop :=
  ∃ b c s, Blanks b ∧ c ∈ [',', '}', ']'] ∧ t = b ++ c :: s

theorem EndsItem.of_cons {c : Char} (hc : c ∈ [',', '}', ']']) : EndsItem (c :: t) :=
  ⟨[], c, t, fun _ h => absurd h List.not_mem_nil, hc, rfl⟩

theorem EndsItem.blanks_append {b : List Char} (hb : Blanks b) (ht : EndsItem t) :
    EndsItem (b ++ t) := by
  obtain ⟨b', c, s, hb', hc, rfl⟩ := ht
  refine ⟨b ++ b', c, s, ?_, hc, by rw [List.append_assoc]⟩
  exact List.forall_mem_append.mpr ⟨hb, hb'⟩

theorem EndsItem.past_tokenPart (h : EndsItem t) : Past isTokenPart t := by
  obtain ⟨b, c, s, hb, hc, rfl⟩ := h
  have hall : ∀ c ∈ [',', '}', ']'], isTokenPart c = false := forall_mem_of_all (by decide)
  exact hb.past_tokenPart (past_cons.mpr (hall c hc))

theorem EndsItem.not_quote (h : EndsItem t) {b s : List Char} {q : Char} (hb : Blanks b)
    (hq : Shape.isPlainQuote q = true) : t ≠ b ++ q :: s := by
  obtain ⟨b', c, s', hb', hc, rfl⟩ := h
  have hall : ∀ c ∈ [',', '}', ']'], isBlank c = false ∧ Shape.isPlainQuote c = false :=
    forall_mem_of_all (by decide)
  intro he
  obtain ⟨-, hrest⟩ := hb'.append_inj hb (past_cons.mpr (hall c hc).1)
    (past_cons.mpr (not_isBlank_of_isPlainQuote hq)) he
  rw [← (List.cons.inj hrest).1, (hall c hc).2] at hq
  cases hq

theorem equals_of_continues (hk : kind ≠ .importFrom) (h : Continues kind t) :
    ∃ target b s, Target target ∧ Blanks b ∧ t = target ++ (b ++ '=' :: s) := by
  obtain ⟨_, _, _, _, left, hbody, rfl⟩ := h
  cases hbody with
  | require ht hb =>
    exact ⟨_, _, _, ht, hb, by simp only [List.append_assoc, List.cons_append]; rfl⟩
  | dynamicImport ht hb =>
    exact ⟨_, _, _, ht, hb, by simp only [List.append_assoc, List.cons_append]; rfl⟩
  | importFrom => exact absurd rfl hk

/-- A declaration goes on from a name with blanks and `=` alone. -/
theorem not_continues_of_name (hk : kind ≠ .importFrom) {n b s : List Char} {c : Char}
    (hn : Name n) (hb : Blanks b) (hpast : Past isTokenPart (b ++ c :: s))
    (hblank : isBlank c = false) (hc : c ≠ '=') : ¬ Continues kind (n ++ (b ++ c :: s)) := by
  intro h
  obtain ⟨target, b', s', ht, hb', he⟩ := equals_of_continues hk h
  obtain ⟨-, hlink⟩ := (Target.name hn).append_inj ht hpast (past_tokenPart_equals hb') he
  obtain ⟨-, hrest⟩ := hb.append_inj hb' (past_cons.mpr hblank) (past_cons.mpr (by decide)) hlink
  exact hc (List.cons.inj hrest).1

theorem not_afterName_item {b n : List Char} (hb : Blanks b) (hn : Name n) (ht : EndsItem t) :
    ¬ AfterName (b ++ (n ++ t)) := by
  intro h
  generalize he : b ++ (n ++ t) = w at h
  cases h with
  | comma hb' =>
    obtain ⟨-, hrest⟩ := hb.append_inj hb' hn.past_blank (past_cons.mpr (by decide)) he
    obtain ⟨c, r, rfl, hc⟩ := hn.exists_head
    rw [(List.cons.inj hrest).1] at hc
    exact absurd hc (by decide)
  | linked hl =>
    obtain @⟨b', b'', s, q, hb', hb'', hq⟩ := hl
    obtain ⟨-, hrest⟩ := hb.append_inj hb' hn.past_blank (past_cons.mpr (by decide)) he
    obtain ⟨-, hlater⟩ := append_inj_of_past hn.isTokenPart_of_mem
      name_from.isTokenPart_of_mem ht.past_tokenPart (hb''.past_tokenPart_quote hq) hrest
    exact ht.not_quote hb'' hq hlater

/-- The other name of a member ends its item, so no statement goes on with it. -/
theorem not_continues_as {b n : List Char} (hb : Blanks b) (hne : b ≠ []) (hn : Name n)
    (ht : EndsItem t) : ¬ Continues kind ("as".toList ++ (b ++ (n ++ t))) := by
  have hpast : Past isTokenPart (b ++ (n ++ t)) := hb.past_tokenPart_of_ne_nil hne
  by_cases hk : kind = .importFrom
  · subst hk
    rintro ⟨_, _, _, _, left, hbody, he⟩
    cases hbody with
    | importFrom hm hi hb₁ hb₂ hs =>
      simp only [List.append_assoc] at he
      cases hm with
      | present => exact absurd (List.cons.inj he).1 (by decide)
      | absent =>
        rw [List.nil_append] at he
        rcases hi.cases_name (.of_quoted hb₁ hb₂ hs) with ⟨n', w, hn', hw, hsplit⟩ | hg
        · rcases hn'.token_of_afterName hw name_as.isTokenPart_of_mem hpast
            (hsplit.symm.trans he.symm) with ⟨-, rfl⟩ | ⟨hword, -⟩
          · exact not_afterName_item hb hn ht hw
          · have hsuffix : "from".toList <:+ "as".toList := ⟨n', hword⟩
            exact absurd hsuffix (by decide)
        · exact name_as.append_ne_group hg he
  · obtain ⟨c, r, rfl, hc⟩ := hn.exists_head
    refine not_continues_of_name hk name_as hb hpast
      (not_isBlank_of_isTokenPart (isTokenPart_of_isTokenStart hc)) ?_
    rintro rfl
    exact absurd hc (by decide)

/-- No declaration goes on with the word `from` before a quoted specifier. -/
theorem not_continues_from (hk : kind ≠ .importFrom) {b s : List Char} {q : Char} (hb : Blanks b)
    (hq : Shape.isPlainQuote q = true) : ¬ Continues kind ("from".toList ++ (b ++ q :: s)) := by
  refine not_continues_of_name hk name_from hb (hb.past_tokenPart_quote hq)
    (not_isBlank_of_isPlainQuote hq) ?_
  rintro rfl
  exact absurd hq (by decide)

theorem exists_keyword_of_read {s : List Char} {v : BindingReading × List Char}
    (h : kind.shape.read s = some v) :
    ∃ word ∈ keywords kind, ∃ b t, Blanks b ∧ b ≠ [] ∧ Continues kind t ∧
      s = word.toList ++ (b ++ t) := by
  obtain ⟨whole, rfl, hd⟩ := derives_of_read h
  obtain ⟨word, hw, b, tail, body, hb, hne, hbody, rfl, -⟩ := hd.exists_body
  exact ⟨word, hw, b, body ++ v.2, hb, hne, ⟨_, _, _, body, _, hbody, rfl⟩, by simp⟩

end Grammar

/-- Nothing is found from within a piece of text, whatever stands before it. -/
def Silent (kind : BindingKind) (piece later : List Char) : Prop :=
  ∀ before, Quiet kind.shape.read before piece later

namespace Silent

variable {kind : BindingKind} {piece b s t u later : List Char} {c : Char}

theorem nil : Silent kind [] later := by
  intro before p c r hs
  simp at hs

theorem append (hs : Silent kind s (t ++ later)) (ht : Silent kind t later) :
    Silent kind (s ++ t) later :=
  fun before => (hs before).append (ht _)

theorem of_not_isWord (h : ∀ c ∈ piece, isWord c = false) : Silent kind piece later := by
  intro before p c r hs _
  cases hr : kind.shape.read (c :: (r ++ later)) with
  | none => rfl
  | some v =>
    -- What is read begins with a keyword, and so with a character of a word.
    obtain ⟨word, hw, b, t, -, -, -, he⟩ := exists_keyword_of_read hr
    obtain ⟨d, w, hd⟩ := List.exists_cons_of_ne_nil (keyword_ne_nil hw)
    have hword := isWord_of_mem_keyword hw d (by simp [hd])
    rw [hd] at he
    rw [← (List.cons.inj he).1, h c (by simp [hs])] at hword
    cases hword

theorem blanks_append (hb : Blanks b) (ht : Silent kind t later) : Silent kind (b ++ t) later :=
  append (of_not_isWord fun c hc => not_isWord_of_isBlank (hb c hc)) ht

theorem cons (hc : isWord c = false) (ht : Silent kind t later) : Silent kind (c :: t) later :=
  append (s := [c]) (of_not_isWord (by simpa using hc)) ht

/-- Nothing begins in a word and the blanks behind it, unless a keyword ends the word and a
statement goes on from there. -/
theorem of_word (hpiece : ∀ c ∈ piece, isBlank c = false) (hb : Blanks b) (ht : Past isBlank t)
    (hend : b = [] → Past isWord t)
    (hdead : b ≠ [] → ∀ word ∈ keywords kind, word.toList <:+ piece → ¬ Continues kind t) :
    Silent kind piece (b ++ t) := by
  intro before p c r hs _
  cases hr : kind.shape.read (c :: (r ++ (b ++ t))) with
  | none => rfl
  | some v =>
    exfalso
    obtain ⟨word, hw, b', t', hb', hne', hcont, he⟩ := exists_keyword_of_read hr
    have hsuffix : c :: r <:+ piece := ⟨p, hs.symm⟩
    have hpart : ∀ d ∈ c :: r, isBlank d = false := fun d hd => hpiece d (hsuffix.subset hd)
    by_cases hne : b = []
    · subst hne
      obtain ⟨e, b', rfl⟩ := List.exists_cons_of_ne_nil hne'
      have hblank := hb' e List.mem_cons_self
      -- The keyword ends where the blanks behind it begin, so it runs on into what follows.
      have hsplit : (c :: r) ++ t = word.toList ++ (e :: b' ++ t') := he
      rcases List.append_eq_append_iff.mp hsplit with ⟨d, hword, rfl⟩ | ⟨d, hd, hrest⟩
      · cases d with
        | nil =>
          rw [past_cons.mp ht] at hblank
          cases hblank
        | cons x d =>
          have hx := isWord_of_mem_keyword hw x (by simp [hword])
          rw [past_cons.mp (hend rfl)] at hx
          cases hx
      · cases d with
        | nil =>
          rw [List.nil_append] at hrest
          rw [← hrest] at ht
          rw [past_cons.mp ht] at hblank
          cases hblank
        | cons x d =>
          rw [(List.cons.inj hrest).1, hpart x (by simp [hd])] at hblank
          cases hblank
    · obtain ⟨hword, -, rfl⟩ := keyword_append_inj hpart (keyword_nonblank hw) hb hb' hne hne' ht
        hcont.past_blank he
      exact hdead hne word hw (hword ▸ hsuffix) hcont

theorem word_append (hpiece : ∀ c ∈ piece, isBlank c = false) (hb : Blanks b)
    (hpast : Past isBlank (t ++ later)) (hend : b = [] → Past isWord (t ++ later))
    (hdead : b ≠ [] → ∀ word ∈ keywords kind, word.toList <:+ piece → ¬ Continues kind (t ++ later))
    (ht : Silent kind t later) : Silent kind (piece ++ (b ++ t)) later := by
  refine append ?_ (blanks_append hb ht)
  rw [List.append_assoc]
  exact of_word hpiece hb hpast hend hdead

end Silent

section Pieces

variable {kind : BindingKind} {b s t later : List Char} {c : Char}

/-- Marks that stand between the words of a statement and begin nothing that it binds. -/
def isMark (c : Char) : Bool := [',', ':', '=', '(', '}', ']'].contains c

theorem isMark_spec (h : isMark c = true) :
    isBlank c = false ∧ isWord c = false ∧ mayBegin c = false := by
  have hall : ∀ c ∈ [',', ':', '=', '(', '}', ']'],
      isBlank c = false ∧ isWord c = false ∧ mayBegin c = false := forall_mem_of_all (by decide)
  exact hall c (List.contains_iff_mem.mp h)

/-- Before a mark a word begins nothing, keyword or not. -/
theorem silent_before_mark (hs : ∀ c ∈ s, isBlank c = false) (hb : Blanks b)
    (hc : isMark c = true) : Silent kind s (b ++ c :: t) := by
  obtain ⟨hblank, hword, hbegin⟩ := isMark_spec hc
  exact .of_word hs hb (past_cons.mpr hblank) (fun _ => past_cons.mpr hword)
    fun _ _ _ _ => not_continues_of_head hbegin

theorem silent_mark_append (hs : ∀ c ∈ s, isBlank c = false) (hb : Blanks b) (hc : isMark c = true)
    (ht : Silent kind t later) : Silent kind (s ++ (b ++ c :: t)) later := by
  refine .append ?_ (.blanks_append hb (.cons (isMark_spec hc).2.1 ht))
  rw [List.append_assoc]
  exact silent_before_mark hs hb hc

/-- A word that no keyword ends begins nothing. -/
theorem silent_space_append (hs : ∀ c ∈ s, isBlank c = false)
    (hno : ∀ word ∈ keywords kind, ¬ word.toList <:+ s) (b : Space)
    (hpast : Past isBlank (t ++ later)) (ht : Silent kind t later) :
    Silent kind (s ++ (b.val ++ t)) later :=
  .word_append hs b.property.1 hpast (fun hb => absurd hb b.property.2)
    (fun _ word hw hsuffix => absurd hsuffix (hno word hw)) ht

theorem VariableName.nonblank (n : VariableName) : ∀ c ∈ n.chars, isBlank c = false :=
  fun c hc => not_isBlank_of_isTokenPart (n.name_chars.isTokenPart_of_mem c hc)

theorem silent_name_item (n : VariableName) (ht : EndsItem t) : Silent kind n.chars t := by
  obtain ⟨b, c, s, hb, hc, rfl⟩ := ht
  have hall : ∀ c ∈ [',', '}', ']'], isMark c = true := forall_mem_of_all (by decide)
  exact silent_before_mark n.nonblank hb (hall c hc)

/-- The words within a statement, none of which begins one. -/
def connectives : List String := ["as", "from", "type", "await", "require"]

theorem connective_nonblank {w : String} (hw : w ∈ connectives) :
    ∀ c ∈ w.toList, isBlank c = false := by
  have hall : ∀ w ∈ connectives, w.toList.all (!isBlank ·) = true := by decide
  simpa using List.all_eq_true.mp (hall w hw)

theorem not_keyword_suffix {w : String} (hw : w ∈ connectives) (kind : BindingKind) :
    ∀ word ∈ keywords kind, ¬ word.toList <:+ w.toList := by
  have hall : ∀ w ∈ connectives, ∀ word ∈ "import" :: declarators,
      ¬ word.toList <:+ w.toList := by decide +kernel
  exact fun word hword => hall w hw word (keywords_subset kind hword)

theorem silent_connective_append {w : String} (hw : w ∈ connectives) (b : Space)
    (hpast : Past isBlank (t ++ later)) (ht : Silent kind t later) :
    Silent kind (w.toList ++ (b.val ++ t)) later :=
  silent_space_append (connective_nonblank hw) (not_keyword_suffix hw kind) b hpast ht

theorem silent_item (i : BindingItem) (ht : EndsItem t) : Silent kind i.text t := by
  cases i with
  | name n => exact silent_name_item n ht
  | renamed m b b' n =>
    have hdead : ¬ Continues kind (("as".toList ++ (b'.val ++ n.chars)) ++ t) := by
      simp only [List.append_assoc]
      exact not_continues_as b'.property.1 b'.property.2 n.name_chars ht
    refine .word_append m.nonblank b.property.1 (past_cons.mpr (by decide))
      (fun hb => absurd hb b.property.2) (fun _ _ _ _ => hdead) ?_
    exact silent_connective_append (by decide) b' n.name_chars.past_blank (silent_name_item n ht)
  | keyed k b b' n =>
    exact silent_mark_append k.nonblank b.property (by decide)
      (.blanks_append b'.property (silent_name_item n ht))

theorem silent_listing {α : Type} {render : α → List Char}
    (hrender : ∀ a t, EndsItem t → Silent kind (render a) t) (l : Listing α) (ht : EndsItem t) :
    Silent kind (l.text render) t := by
  have hgap (b : Gap) : Silent kind b.val t :=
    .of_not_isWord fun c hc => not_isWord_of_isBlank (b.property c hc)
  induction l with
  | blank b => exact hgap b
  | last b a b' =>
    exact .blanks_append b.property (.append (hrender a _ (ht.blanks_append b'.property)) (hgap b'))
  | more b a b' rest ih =>
    refine .blanks_append b.property (.append (hrender a _ ?_)
      (.blanks_append b'.property (.cons (by decide) ih)))
    rw [List.append_assoc]
    exact EndsItem.blanks_append b'.property (.of_cons (by decide))

theorem silent_braced (items : Listing BindingItem) :
    Silent kind ('{' :: (items.text BindingItem.text ++ ['}'])) later := by
  have hclose : ∀ c ∈ ['}'], isWord c = false := List.forall_mem_singleton.mpr rfl
  exact .cons (by decide) (.append (silent_listing (fun i _ => silent_item i) items
    (.of_cons (by decide))) (.of_not_isWord hclose))

theorem silent_target (t : DeclaredTarget) (hb : Blanks b) :
    Silent kind t.text (b ++ '=' :: s) := by
  cases t with
  | name n => exact silent_before_mark n.nonblank hb (by decide)
  | braced items => exact silent_braced items
  | bracketed names =>
    have hclose : ∀ c ∈ [']'], isWord c = false := List.forall_mem_singleton.mpr rfl
    exact .cons (by decide) (.append (silent_listing (fun n _ => silent_name_item n) names
      (.of_cons (by decide))) (.of_not_isWord hclose))

theorem silent_quoted {quotes : Char → Bool} (hquotes : ∀ c, quotes c = true → isBlank c = false ∧
    isWord c = false) (q : QuotedSpecifier quotes) (ht : Silent kind t later) :
    Silent kind (q.text ++ t) later := by
  obtain ⟨hblank, hword⟩ := hquotes _ q.quotes_quote
  have hspec : ∀ c ∈ q.specifier, isBlank c = false :=
    fun c hc => not_isBlank_of_isSpecifierPart (q.isSpecifierPart_of_mem c hc)
  have hnil : Blanks [] := fun _ h => absurd h List.not_mem_nil
  have htext : q.text ++ t = q.quote :: (q.specifier ++ ([] ++ (q.quote :: t))) := by
    simp [QuotedSpecifier.text]
  rw [htext]
  exact .cons hword (.word_append hspec hnil (past_cons.mpr hblank) (fun _ => past_cons.mpr hword)
    (fun hne => absurd rfl hne) (.cons hword ht))

theorem silent_call {keyword : String} (hk : ∀ c ∈ keyword.toList, isBlank c = false)
    (a : CallArgument) : Silent kind (a.text keyword) later := by
  have hquotes : ∀ c, Shape.isQuote c = true → isBlank c = false ∧ isWord c = false :=
    fun c hc => ⟨Shape.not_isBlank_of_isQuote hc, not_isWord_of_isQuote hc⟩
  have hclose : ∀ c ∈ [')'], isWord c = false := List.forall_mem_singleton.mpr rfl
  exact silent_mark_append hk a.before.property (by decide) (.blanks_append a.opening.property
    (silent_quoted hquotes a.source (.blanks_append a.closing.property (.of_not_isWord hclose))))

theorem import_nonblank : ∀ c ∈ "import".toList, isBlank c = false :=
  keyword_nonblank (show "import" ∈ keywords .importFrom from List.mem_singleton_self _)

theorem silent_moduleCall (call : ModuleCall) : Silent kind call.text later := by
  have himport (a : CallArgument) : Silent kind (a.text "import") later :=
    silent_call import_nonblank a
  cases call with
  | require a => exact silent_call (connective_nonblank (by decide)) a
  | dynamicImport w a =>
    cases w with
    | none => exact himport a
    | some b =>
      have hcall : Silent kind ("await".toList ++ (b.val ++ a.text "import")) later :=
        silent_connective_append (by decide) b (past_cons.mpr (by decide)) (himport a)
      rwa [← List.append_assoc] at hcall

end Pieces

section Statements

variable {kind : BindingKind} {later : List Char}

theorem ModuleCall.exists_head (call : ModuleCall) :
    ∃ c s, call.text = c :: s ∧ isBlank c = false ∧
      (call.kind = .require ∧ c = 'r' ∨ call.kind = .dynamicImport ∧ c ≠ 'r') := by
  cases call with
  | require a => exact ⟨'r', _, rfl, by decide, .inl ⟨rfl, rfl⟩⟩
  | dynamicImport w a =>
    cases w with
    | none => exact ⟨'i', _, rfl, by decide, .inr ⟨rfl, by decide⟩⟩
    | some b => exact ⟨'a', _, rfl, by decide, .inr ⟨rfl, by decide⟩⟩

theorem require_ne_await {m wait call s left : List Char} (ha : Marker "await" wait)
    (hc : Call "import" m call) : 'r' :: s ≠ wait ++ (call ++ left) := by
  intro he
  cases ha with
  | absent =>
    obtain ⟨-, -, -, -⟩ := hc
    exact absurd (List.cons.inj he).1 (by decide)
  | present => exact absurd (List.cons.inj he).1 (by decide)

/-- What a declaration refers to tells its kind. -/
theorem not_continues_other {d : WrittenDeclaration} (hk : kind ≠ .importFrom)
    (hne : d.call.kind ≠ kind) : ¬ Continues kind (d.target.text ++ (d.before.val ++ '=' ::
      (d.after.val ++ (d.call.text ++ later)))) := by
  obtain ⟨c, s, hcall, hblank, hkind⟩ := d.call.exists_head
  have hpast : Past isBlank (d.call.text ++ later) := by
    rw [hcall]
    exact past_cons.mpr hblank
  rintro ⟨_, _, _, _, left, hbody, he⟩
  cases hbody with
  | require ht hb hb' hc =>
    simp only [List.append_assoc, List.cons_append] at he
    obtain ⟨-, -, -, hrest⟩ := equals_append_inj d.target.target_text ht d.before.property hb
      d.after.property hb' hpast (hc.past_blank Shape.isKeyword_require) he
    obtain ⟨-, hr⟩ := hkind.resolve_left fun h => hne h.1
    obtain ⟨-, -, -, -⟩ := hc
    rw [hcall] at hrest
    exact hr (List.cons.inj hrest).1
  | dynamicImport ht hb hb' ha hc =>
    simp only [List.append_assoc, List.cons_append] at he
    obtain ⟨-, -, -, hrest⟩ := equals_append_inj d.target.target_text ht d.before.property hb
      d.after.property hb' hpast (await_past_blank ha hc) he
    obtain ⟨-, rfl⟩ := hkind.resolve_right fun h => hne h.1
    rw [hcall] at hrest
    exact require_ne_await ha hc hrest
  | importFrom => exact absurd rfl hk

theorem declarator_nonblank {word : String} (hw : word ∈ declarators) :
    ∀ c ∈ word.toList, isBlank c = false :=
  keyword_nonblank (show word ∈ keywords .require from hw)

theorem silent_declaration (d : WrittenDeclaration) (hne : d.call.kind ≠ kind) :
    Silent kind d.text later := by
  have hword := declarator_nonblank d.word.property
  have htarget : Silent kind (d.target.text ++ (d.before.val ++ '=' ::
      (d.after.val ++ d.call.text))) later := by
    refine .append ?_ (.blanks_append d.before.property (.cons (by decide)
      (.blanks_append d.after.property (silent_moduleCall d.call))))
    rw [List.append_assoc]
    exact silent_target d.target d.before.property
  have hpast : Past isBlank ((d.target.text ++ (d.before.val ++ '=' ::
      (d.after.val ++ d.call.text))) ++ later) := by
    rw [List.append_assoc]
    exact past_blank_of_mayBegin d.target.target_text.exists_mayBegin
  refine .word_append hword d.space.property.1 hpast (fun hb => absurd hb d.space.property.2) ?_
    htarget
  intro _ word hw hsuffix
  -- An import begins with no declarator; a declaration would go on to a call of its own kind.
  by_cases hk : kind = .importFrom
  · subst hk
    have hall : ∀ w ∈ declarators, ¬ "import".toList <:+ w.toList := by decide
    rw [List.mem_singleton.mp hw] at hsuffix
    exact absurd hsuffix (hall _ d.word.property)
  · simp only [List.append_assoc, List.cons_append]
    exact not_continues_other hk hne

theorem silent_before_from (hk : kind ≠ .importFrom) (n : VariableName) {b b' s : List Char}
    {q : Char} (hb : Blanks b) (hne : b ≠ []) (hb' : Blanks b')
    (hq : Shape.isPlainQuote q = true) :
    Silent kind n.chars (b ++ ("from".toList ++ (b' ++ q :: s))) :=
  .of_word n.nonblank hb (past_cons.mpr (by decide)) (fun h => absurd h hne)
    fun _ _ _ _ => not_continues_from hk hb' hq

theorem silent_group (hk : kind ≠ .importFrom) (g : ImportedGroup) {b b' s : List Char} {q : Char}
    (hb : Blanks b) (hne : g.endsInName = true → b ≠ []) (hb' : Blanks b')
    (hq : Shape.isPlainQuote q = true) :
    Silent kind g.text (b ++ ("from".toList ++ (b' ++ q :: s))) := by
  cases g with
  | braced items => exact silent_braced items
  | all c c' n =>
    exact .cons (by decide) (.blanks_append c.property (silent_connective_append (by decide) c'
      n.name_chars.past_blank (silent_before_from hk n hb (hne rfl) hb' hq)))

theorem silent_imported (hk : kind ≠ .importFrom) (t : ImportedTarget) {b b' s : List Char}
    {q : Char} (hb : Blanks b) (hne : t.endsInName = true → b ≠ []) (hb' : Blanks b')
    (hq : Shape.isPlainQuote q = true) :
    Silent kind t.text (b ++ ("from".toList ++ (b' ++ q :: s))) := by
  cases t with
  | default n => exact silent_before_from hk n hb (hne rfl) hb' hq
  | both n c c' g =>
    exact silent_mark_append n.nonblank c.property (by decide)
      (.blanks_append c'.property (silent_group hk g hb hne hb' hq))
  | group g => exact silent_group hk g hb hne hb' hq

theorem silent_import (i : WrittenImport) (hk : kind ≠ .importFrom) : Silent kind i.text later := by
  have hquotes : ∀ c, Shape.isPlainQuote c = true → isBlank c = false ∧ isWord c = false :=
    fun c hc => ⟨not_isBlank_of_isPlainQuote hc,
      not_isWord_of_isQuote (ReferenceKind.isQuote_of_isPlainQuote hc)⟩
  have hsource : Silent kind i.source.text later := by
    have hnil : Silent kind [] later := .nil
    simpa using silent_quoted hquotes i.source hnil
  have hfrom : Silent kind ("from".toList ++ (i.after.val ++ i.source.text)) later := by
    have hmem : "from" ∈ connectives := by decide
    obtain ⟨hblank, hquote⟩ := hquotes _ i.source.quotes_quote
    exact .word_append (connective_nonblank hmem) i.after.property (past_cons.mpr hblank)
      (fun _ => past_cons.mpr hquote)
      (fun _ w hw hsuffix => absurd hsuffix (not_keyword_suffix hmem kind w hw)) hsource
  have htarget : Silent kind (i.target.text ++ (i.before.val ++ ("from".toList ++
      (i.after.val ++ i.source.text)))) later := by
    refine .append ?_ (.blanks_append i.before.property hfrom)
    simp only [List.append_assoc]
    exact silent_imported hk i.target i.before.property i.before_ne_nil i.after.property
      i.source.quotes_quote
  have hpast : Past isBlank ((i.target.text ++ (i.before.val ++ ("from".toList ++
      (i.after.val ++ i.source.text)))) ++ later) := by
    rw [List.append_assoc]
    exact i.target.imported_text.past_blank
  have htype : Silent kind (markerText "type" i.type ++ (i.target.text ++ (i.before.val ++
      ("from".toList ++ (i.after.val ++ i.source.text))))) later := by
    cases i.type with
    | none => exact htarget
    | some b =>
      rw [markerText, List.append_assoc]
      exact silent_connective_append (by decide) b hpast htarget
  have hno : ∀ word ∈ keywords kind, ¬ word.toList <:+ "import".toList := by
    have hall : ∀ word ∈ declarators, ¬ word.toList <:+ "import".toList := by decide
    cases kind with
    | importFrom => exact absurd rfl hk
    | require | dynamicImport => exact hall
  refine silent_space_append import_nonblank hno i.space ?_ htype
  cases i.type with
  | none => exact hpast
  | some b => exact past_cons.mpr (by decide)

end Statements

end ImportLedger
