import ImportLedger.Proofs.BoundReferences
import ImportLedger.Proofs.StatementOpenings

/-! The gap behind the keyword of a statement that binds a group. A bracket or the mark `*` ends the
keyword by itself, yet such a statement is found only if a blank stands between the two. -/

namespace ImportLedger

open Pattern Text Occurrence Grammar

namespace Text

/-- The end of a text in two parts begins in the second part or in the first. -/
theorem suffix_append_cases {s u v : List Char} (h : s <:+ u ++ v) :
    s <:+ v ∨ ∃ e, e ≠ [] ∧ e <:+ u ∧ s = e ++ v := by
  obtain ⟨d, hd⟩ := h
  rcases List.append_eq_append_iff.mp hd with ⟨e, rfl, rfl⟩ | ⟨e, -, rfl⟩
  · by_cases he : e = []
    · exact .inl (by simp [he])
    · exact .inr ⟨e, he, List.suffix_append _ _, rfl⟩
  · exact .inl (List.suffix_append _ _)

end Text

namespace Grammar

/-- A bound text that shows by itself where it begins: a list in brackets, or a name for all that a
module exports. -/
inductive Grouped : BindingKind → List Char → Prop
  | braced {kind : BindingKind} {s : List Char} (hs : ∀ c ∈ s, isListPart c = true) :
      Grouped kind ('{' :: (s ++ ['}']))
  | bracketed {kind : BindingKind} {s : List Char} (hk : kind ≠ .importFrom)
      (hs : ∀ c ∈ s, isListPart c = true) : Grouped kind ('[' :: (s ++ [']']))
  | all {s : List Char} (h : Alias s) : Grouped .importFrom s

section Openings

variable {kind : BindingKind} {s w p binding joint : List Char} {word : String}

theorem not_opening_of_suffix_joint (hj : kind.joint.Describes joint) (hs : w <:+ joint) :
    ¬ kind.opening.Describes w := by
  intro h
  obtain ⟨c, r, rfl, hc, -⟩ := exists_initial_of_opening h
  exact initial_notMem_joint hj c (hs.subset List.mem_cons_self) hc

/-- No statement begins within a list in brackets and goes on behind it. -/
theorem not_opening_of_suffix_list {o c : Char} (hj : kind.joint.Describes joint)
    (ho : isWord o = false) (hc : c ∈ ['}', ']']) (hs : ∀ d ∈ s, isListPart d = true)
    (hw : w <:+ o :: (s ++ c :: joint)) : ¬ kind.opening.Describes w := by
  intro h
  obtain ⟨d, r, hd, -, hword⟩ := exists_initial_of_opening h
  rcases List.suffix_cons_iff.mp hw with he | hw
  · obtain ⟨rfl, -⟩ := List.cons.inj (hd.symm.trans he)
    rw [ho] at hword
    cases hword
  have hall : ∀ c ∈ ['}', ']'], isListPart c = false ∧ c ≠ '{' ∧ c ≠ '[' :=
    forall_mem_of_all (by decide)
  obtain ⟨hlast, hbrace, hbracket⟩ := hall c hc
  -- Behind the bracket that opens the list no other one opens, and so none closes.
  have hno {d : Char} (hd : isListPart d = false) (hne : d ≠ c) : d ∉ w := by
    intro hm
    rcases List.mem_append.mp (hw.subset hm) with hm | hm
    · rw [hs d hm] at hd
      cases hd
    · rw [isListPart_of_mem_joint hj d ((List.mem_cons.mp hm).resolve_left hne)] at hd
      cases hd
  have hclosing : c ∉ w := by
    intro hm
    have hpart := isListPart_of_mem_opening h
      ⟨hno (by decide) hbrace.symm, hno (by decide) hbracket.symm⟩ c hm
    rw [hlast] at hpart
    cases hpart
  rcases suffix_append_cases hw with hw | ⟨e, -, -, rfl⟩
  · rcases List.suffix_cons_iff.mp hw with rfl | hw
    · exact hclosing List.mem_cons_self
    · exact not_opening_of_suffix_joint hj hw h
  · exact hclosing (List.mem_append_right _ List.mem_cons_self)

/-- No import has its keyword, the gap behind it and what it binds within a text without blanks. -/
theorem not_opening_of_nonblank (hj : BindingKind.importFrom.joint.Describes joint)
    (hs : ∀ c ∈ s, isBlank c = false) :
    ¬ BindingKind.importFrom.opening.Describes (s ++ joint) := by
  intro h
  obtain ⟨word, hword, gap, bound, joint', hgap, hne, hbound, hj', he⟩ := exists_of_opening h
  have hself {t : List Char} (ht : ∀ c ∈ t, isBlank c = false) : ink t = t :=
    List.filter_eq_self.mpr fun c hc => by simp [ht c hc]
  have hink := congrArg ink he
  rw [ink_append, ink_append, ink_append, ink_append, ink_joint_importFrom hj,
    ink_joint_importFrom hj', ink_of_blank hgap, hself hs, hself (keyword_nonblank hword),
    List.nil_append, ← List.append_assoc] at hink
  obtain rfl := List.append_cancel_right hink
  rw [List.append_assoc] at he
  have hgaps := List.append_cancel_left he
  obtain ⟨c, r, rfl, hbegin⟩ := hbound.exists_mayBegin
  have hc := not_isBlank_of_mayBegin hbegin
  obtain ⟨d, gap, rfl⟩ := List.exists_cons_of_ne_nil hne
  rw [ink, List.filter_cons_of_pos (by simp [hc])] at hgaps
  rw [(List.cons.inj hgaps).1, hgap d List.mem_cons_self] at hc
  cases hc

/-- No import begins within the name that another one gives to a whole module. -/
theorem not_opening_of_suffix_alias (hj : BindingKind.importFrom.joint.Describes joint)
    (ha : Alias s) (hw : w <:+ s ++ joint) : ¬ BindingKind.importFrom.opening.Describes w := by
  intro h
  obtain ⟨c, r, hcr, hc, -⟩ := exists_initial_of_opening h
  obtain rfl := List.mem_singleton.mp hc
  obtain @⟨b, b', n, hb, hb', -, hn⟩ := ha
  have hblank {b : List Char} (hb : Blanks b) : 'i' ∉ b := fun hi => absurd (hb 'i' hi) (by decide)
  have hno : 'i' ∉ '*' :: (b ++ ("as".toList ++ b')) := by
    simp [hblank hb, hblank hb']
  have hsplit : w <:+ '*' :: (b ++ ("as".toList ++ b')) ++ (n ++ joint) := by simpa using hw
  rcases suffix_append_cases hsplit with hw | ⟨e, hne, he, rfl⟩
  · rcases suffix_append_cases hw with hw | ⟨e, -, he, rfl⟩
    · exact not_opening_of_suffix_joint hj hw h
    · refine not_opening_of_nonblank hj (fun c hc => ?_) h
      exact not_isBlank_of_isTokenPart (hn.isTokenPart_of_mem c (he.subset hc))
  · obtain ⟨d, e, rfl⟩ := List.exists_cons_of_ne_nil hne
    rw [(List.cons.inj hcr).1] at he
    exact hno (he.subset List.mem_cons_self)

theorem Grouped.exists_head (h : Grouped kind binding) :
    ∃ c r, binding = c :: r ∧ c ∈ ['{', '[', '*'] := by
  cases h with
  | braced => exact ⟨_, _, rfl, by decide⟩
  | bracketed => exact ⟨_, _, rfl, by decide⟩
  | all ha =>
    obtain ⟨-⟩ := ha
    exact ⟨_, _, rfl, by decide⟩

/-- From a keyword with no gap behind it no statement is read. -/
theorem not_opening_of_keyword (hword : word ∈ keywords kind) (hb : Grouped kind binding) :
    ¬ kind.opening.Describes (word.toList ++ (binding ++ joint)) := by
  intro h
  obtain ⟨word', hword', gap, bound, joint', hgap, hne, -, -, he⟩ := exists_of_opening h
  obtain ⟨c, r, rfl, hc⟩ := hb.exists_head
  obtain ⟨d, gap, rfl⟩ := List.exists_cons_of_ne_nil hne
  have hmarks : ∀ c ∈ ['{', '[', '*'], isWord c = false ∧ isBlank c = false :=
    forall_mem_of_all (by decide)
  have hd := hgap d List.mem_cons_self
  obtain ⟨-, hrest⟩ := append_inj_of_past (isWord_of_mem_keyword hword)
    (isWord_of_mem_keyword hword') (past_cons.mpr (hmarks c hc).1)
    (past_cons.mpr (not_isWord_of_isBlank hd)) he
  rw [← (List.cons.inj hrest).1, (hmarks c hc).2] at hd
  cases hd

/-- Where a word may begin no statement is read if there is no gap behind the keyword. -/
theorem not_opening_of_tight (hword : word ∈ keywords kind) (hb : Grouped kind binding)
    (hj : kind.joint.Describes joint) (hmay : wordMayFollow (lastOr none p) = true)
    (ho : word.toList ++ (binding ++ joint) = p ++ w) : ¬ kind.opening.Describes w := by
  intro h
  rcases List.append_eq_append_iff.mp ho with ⟨d, rfl, hrest⟩ | ⟨d, hd, rfl⟩
  · have hw : w <:+ binding ++ joint := ⟨d, hrest.symm⟩
    have hbrace : isWord '{' = false ∧ isWord '[' = false := by decide
    cases hb with
    | @braced kind s hs =>
      have hw : w <:+ '{' :: (s ++ '}' :: joint) := by simpa using hw
      exact not_opening_of_suffix_list hj hbrace.1 List.mem_cons_self hs hw h
    | @bracketed kind s _ hs =>
      have hw : w <:+ '[' :: (s ++ ']' :: joint) := by simpa using hw
      exact not_opening_of_suffix_list hj hbrace.2 (by simp) hs hw h
    | all ha => exact not_opening_of_suffix_alias hj ha hw h
  · rcases List.eq_nil_or_concat p with rfl | ⟨t, c, rfl⟩
    · rw [List.nil_append] at hd
      rw [← hd] at h
      exact not_opening_of_keyword hword hb h
    · rw [List.concat_eq_append] at hd hmay
      rw [lastOr_concat] at hmay
      have hc := isWord_of_mem_keyword hword c (by simp [hd])
      rw [wordMayFollow_iff.mp hmay c rfl] at hc
      cases hc

end Openings

/-- A text with two quotes in it, around a specifier, behind the text `opening`. -/
inductive OnceQuoted (opening m : List Char) : List Char → Prop
  | intro {q q' : Char} {closing : List Char} (hq : Shape.isQuote q = true)
      (hq' : Shape.isQuote q' = true) (ho : ∀ c ∈ opening, Shape.isQuote c = false)
      (hm : ∀ c ∈ m, Shape.isQuote c = false) (hc : ∀ c ∈ closing, Shape.isQuote c = false) :
      OnceQuoted opening m (opening ++ q :: (m ++ q' :: closing))

section Quotes

variable {kind : BindingKind} {k : ReferenceKind} {q q' : Char}
  {o m text p s u v w joint left : List Char}

theorem OnceQuoted.append (h : OnceQuoted o m text) (hs : ∀ c ∈ s, Shape.isQuote c = false) :
    OnceQuoted (s ++ o) m (s ++ text) := by
  obtain ⟨hq, hq', ho, hm, hc⟩ := h
  have hh := OnceQuoted.intro hq hq' (List.forall_mem_append.mpr ⟨hs, ho⟩) hm hc
  simpa only [List.append_assoc] using hh

theorem OnceQuoted.opening_eq (h : OnceQuoted o m text) (hq : Shape.isQuote q = true)
    (hq' : Shape.isQuote q' = true) (ht : text = u ++ q :: (v ++ q' :: w)) : o = u := by
  obtain ⟨hr, hr', ho, hm, hc⟩ := h
  exact (append_pair_inj ho hm hc hr hr' hq hq' ht).1

theorem cut_of_reference (h : kind.shape.reference.read s = some (m, left)) :
    ∃ head q q' t, kind.referenceHead.Describes head ∧ Shape.isQuote q = true ∧
      Shape.isQuote q' = true ∧ (∀ c ∈ head ++ t, Shape.isQuote c = false) ∧
      s = head ++ q :: (m ++ q' :: (t ++ left)) := by
  have hcall {keyword : String} (hk : Shape.IsKeyword keyword)
      (hr : (Shape.call keyword).read s = some (m, left)) :
      ∃ head q q' t, (Shape.callHead keyword).Describes head ∧ Shape.isQuote q = true ∧
        Shape.isQuote q' = true ∧ (∀ c ∈ head ++ t, Shape.isQuote c = false) ∧
        s = head ++ q :: (m ++ q' :: (t ++ left)) := by
    obtain ⟨head, q, q', b, hhead, hq, hq', -, -, hb, he⟩ := (Shape.call_read_iff hk).mp hr
    refine ⟨head, q, q', b ++ [')'], hhead, hq, hq', ?_, by simp [he]⟩
    simp only [List.forall_mem_append]
    exact ⟨Shape.not_isQuote_of_mem_callHead hk hhead,
      fun c hc => Shape.not_isQuote_of_isBlank (hb c hc), forall_mem_of_all (by decide)⟩
  cases kind with
  | require => exact hcall Shape.isKeyword_require h
  | dynamicImport => exact hcall Shape.isKeyword_import h
  | importFrom =>
    obtain ⟨_, ⟨hq, hq', -, -⟩, rfl⟩ := quoted_of_read h
    exact ⟨[], _, _, [], .literal "", ReferenceKind.isQuote_of_isPlainQuote hq,
      ReferenceKind.isQuote_of_isPlainQuote hq', fun _ hc => absurd hc List.not_mem_nil, by simp⟩

/-- What the reader of a kind reads has its opening before the one quoted specifier of a text. -/
theorem OnceQuoted.opening_of_read {r : BindingReading} (h : OnceQuoted o m (p ++ s))
    (hr : kind.shape.read s = some (r, left)) : ∃ w, o = p ++ w ∧ kind.opening.Describes w := by
  obtain ⟨lead, link, hlead, hbinding, hlink, href, rfl⟩ := BindingShape.read_sound hr
  obtain ⟨head, q, q', t, hhead, hq, hq', -, he⟩ := cut_of_reference href
  have hcut : p ++ (lead ++ (r.binding ++ (link ++ (r.reference ++ left)))) =
      (p ++ (lead ++ r.binding ++ (link ++ head))) ++ q :: (r.specifier ++ q' :: (t ++ left)) := by
    rw [he]
    simp only [List.append_assoc]
  exact ⟨_, h.opening_eq hq hq' hcut, .seq (.seq hlead hbinding) (.seq hlink hhead)⟩

theorem OnceQuoted.head_of_reader (h : OnceQuoted o m (p ++ s))
    (hr : k.reader s = some (v, left)) : ∃ w, o = p ++ w ∧ k.head.Describes w := by
  obtain ⟨w, q, q', t, hw, hq, hq', -, -, rfl⟩ := ReferenceKind.cut_of_reader hr
  exact ⟨w, h.opening_eq hq hq' (List.append_assoc _ _ _).symm, hw⟩

/-- What stands before the one quoted specifier of a text tells the kind of its references. -/
theorem OnceQuoted.references_eq_nil (h : OnceQuoted (u ++ joint) m text)
    (hj : kind.joint.Describes joint) (hne : k ≠ kind.referenceKind) : k.references text = [] := by
  have hnone : findAll k.reader text = [] := by
    refine findAll_eq_nil fun p s v ht _ hr => ?_
    subst ht
    obtain ⟨w, he, hw⟩ := h.head_of_reader hr
    have hmark := mark_of_joint hj u
    rw [he, ink_append] at hmark
    have hhead := (ReferenceKind.mark_of_head hw).trans (List.suffix_append (ink p) _)
    exact hne (ReferenceKind.eq_of_marks hhead hmark)
  rw [ReferenceKind.references, hnone, List.map_nil]

theorem OnceQuoted.statements_eq_nil {kind' : BindingKind} (h : OnceQuoted (u ++ joint) m text)
    (hj : kind.joint.Describes joint) (hne : kind' ≠ kind) : kind'.statements text = [] := by
  have hkinds : ∀ a b : BindingKind, a.referenceKind = b.referenceKind → a = b := by
    intro a b
    cases a <;> cases b <;> decide
  have hnone : findAll kind'.shape.read text = [] := by
    refine findAll_eq_nil fun p s v ht _ hr => ?_
    subst ht
    obtain ⟨w, he, hw⟩ := h.opening_of_read hr
    obtain ⟨front, joint', -, hj', rfl⟩ := describes_append.mp hw
    have hmark := mark_of_joint hj u
    rw [he, ← List.append_assoc] at hmark
    exact hne (hkinds _ _ (ReferenceKind.eq_of_marks (mark_of_joint hj' (p ++ front)) hmark))
  rw [BindingKind.statements, hnone, List.map_nil]

end Quotes

section Pieces

variable {kind : BindingKind} {m binding rest tail : List Char}

/-- Behind a group a statement goes on with what joins it to the reference, and the reference. -/
theorem Grouped.exists_link (hg : Grouped kind binding)
    (h : Body kind binding m tail (binding ++ rest)) :
    ∃ link, kind.shape.link.Describes link ∧ rest = link ++ tail ∧
      kind.shape.reference.read tail = some (m, []) := by
  generalize he : binding ++ rest = body at h
  cases h with
  | @require b b' _ _ call ht hb hb' hc =>
    obtain rfl := List.append_cancel_left he
    exact ⟨b ++ '=' :: b', describes_requireLink.mpr ⟨b, b', hb, hb', rfl⟩, by simp,
      (call_read Shape.isKeyword_require).mpr ⟨tail, hc, by simp⟩⟩
  | @dynamicImport b b' wait _ _ call ht hb hb' ha hc =>
    obtain rfl := List.append_cancel_left he
    exact ⟨b ++ '=' :: (b' ++ wait), describes_dynamicLink.mpr ⟨b, b', wait, hb, hb', ha, rfl⟩,
      by simp, (call_read Shape.isKeyword_import).mpr ⟨tail, hc, by simp⟩⟩
  | @importFrom b b' type _ _ _ ht hi hb hb' hs =>
    cases ht with
    | absent =>
      obtain rfl := List.append_cancel_left he
      have hread := read_of_quoted hs []
      rw [List.append_nil] at hread
      exact ⟨b ++ ("from".toList ++ b'), describes_importLink.mpr ⟨b, b', hb, hb', rfl⟩, by simp,
        hread⟩
    | present =>
      obtain ⟨c, r, rfl, hc⟩ := hg.exists_head
      obtain ⟨rfl, -⟩ := List.cons.inj he
      exact absurd hc (by decide)

end Pieces

theorem Grouped.not_isQuote_of_mem {kind : BindingKind} {s : List Char} (h : Grouped kind s) :
    ∀ c ∈ s, Shape.isQuote c = false := by
  have hfree {s : List Char} (hs : ∀ c ∈ s, isListPart c = true) :
      ∀ c ∈ s, Shape.isQuote c = false := fun c hc => (isListPart_iff.mp (hs c hc)).1
  have hlist {o c : Char} {s : List Char} (ho : Shape.isQuote o = false)
      (hc : Shape.isQuote c = false) (hs : ∀ d ∈ s, isListPart d = true) :
      ∀ d ∈ o :: (s ++ [c]), Shape.isQuote d = false := by
    refine List.forall_mem_cons.mpr ⟨ho, List.forall_mem_append.mpr ⟨hfree hs, ?_⟩⟩
    exact List.forall_mem_singleton.mpr hc
  cases h with
  | braced hs => exact hlist (by decide) (by decide) hs
  | bracketed _ hs => exact hlist (by decide) (by decide) hs
  | all ha => exact hfree ha.isListPart_of_mem

/-- A statement that binds a group has the two quotes of its reference and no other ones. -/
theorem Grouped.exists_onceQuoted {kind : BindingKind} {word : String}
    {gap binding link m tail : List Char} (hgroup : Grouped kind binding)
    (hword : word ∈ keywords kind) (hgap : Blanks gap) (hlink : kind.shape.link.Describes link)
    (hm : ∀ c ∈ m, Shape.isQuote c = false)
    (hr : kind.shape.reference.read tail = some (m, [])) :
    ∃ head, kind.referenceHead.Describes head ∧ OnceQuoted
      (word.toList ++ gap ++ binding ++ (link ++ head)) m
      (word.toList ++ gap ++ binding ++ (link ++ tail)) := by
  obtain ⟨head, q, q', t, hhead, hq, hq', hfree, rfl⟩ := cut_of_reference hr
  obtain ⟨hheadfree, htfree⟩ := List.forall_mem_append.mp hfree
  have htail : OnceQuoted head m (head ++ q :: (m ++ q' :: t)) := .intro hq hq' hheadfree hm htfree
  have hjoint : kind.joint.Describes (link ++ head) := .seq hlink hhead
  have hlinkfree : ∀ c ∈ link, Shape.isQuote c = false := fun c hc =>
    (isListPart_iff.mp (isListPart_of_mem_joint hjoint c (List.mem_append_left _ hc))).1
  have hfront : ∀ c ∈ word.toList ++ gap ++ binding, Shape.isQuote c = false := by
    simp only [List.forall_mem_append]
    refine ⟨⟨fun c hc => ?_, fun c hc => ?_⟩, hgroup.not_isQuote_of_mem⟩
    · exact (isListPart_iff.mp (isListPart_of_isWord (isWord_of_mem_keyword hword c hc))).1
    · exact Shape.not_isQuote_of_isBlank (hgap c hc)
  rw [List.append_nil]
  exact ⟨head, hhead, (htail.append hlinkfree).append hfront⟩

theorem Grouped.findAll_of_tight {kind : BindingKind} {word : String}
    {binding joint m text : List Char} (hgroup : Grouped kind binding)
    (hword : word ∈ keywords kind) (hjoint : kind.joint.Describes joint)
    (h : OnceQuoted (word.toList ++ (binding ++ joint)) m text) :
    findAll kind.shape.read text = [] := by
  refine findAll_eq_nil fun p s v ht hmay hr => ?_
  obtain ⟨w, hw, hopening⟩ := (ht ▸ h).opening_of_read hr
  exact not_opening_of_tight hword hgroup hjoint hmay hw hopening

end Grammar

section Searches

variable {kind : BindingKind} {k : ReferenceKind}
  {text binding m reference whole front head tail : List Char}

theorem Grammar.Derives.findAll_eq (h : Derives kind binding m reference whole) :
    ∃ v, findAll kind.shape.read whole = [⟨0, whole, v⟩] ∧ v.binding = binding ∧
      v.specifier = m ∧ shown kind whole v.reference = reference := by
  obtain ⟨v, hread, hv⟩ := read_of_derives h []
  rw [List.append_nil] at hread
  have hquiet : Quiet kind.shape.read none [] whole := fun p c r hs => by simp at hs
  exact ⟨v, findAll_eq_singleton hquiet rfl h.ne_nil hread, hv⟩

/-- The record of a statement that is a whole text. -/
def wholeStatement (kind : BindingKind) (binding m reference whole : List Char) :
    BindingStatement :=
  ⟨kind, String.ofList binding, String.ofList m, String.ofList reference, 0, byteLength whole⟩

theorem moduleReference_wholeStatement (h : whole = front ++ reference) :
    (wholeStatement kind binding m reference whole).moduleReference =
      ⟨byteLength front, String.ofList m⟩ := by
  refine BindingStatement.moduleReference_eq ?_
  show byteLength front + byteLength (String.ofList reference).toList = byteLength whole
  rw [String.toList_ofList, h, byteLength_append]

theorem Grammar.Derives.statements_eq (h : Derives kind binding m reference whole) :
    kind.statements whole = [wholeStatement kind binding m reference whole] := by
  obtain ⟨v, hfound, rfl, rfl, rfl⟩ := h.findAll_eq
  have hstop : Occurrence.stop ⟨0, whole, v⟩ = byteLength whole := Nat.zero_add _
  rw [BindingKind.statements, hfound, List.map_singleton, wholeStatement, ← hstop]
  cases kind <;> rfl

theorem references_importFrom_eq :
    ReferenceKind.importFrom.references text =
      (findAll BindingKind.importFrom.shape.read text).map fun o =>
        ⟨o.start, String.ofList o.value.specifier⟩ :=
  ReferenceKind.references_importFrom text

theorem Grammar.Derives.references_eq (h : Derives .importFrom binding m reference whole) :
    ReferenceKind.importFrom.references whole =
      [(wholeStatement .importFrom binding m whole whole).moduleReference] := by
  obtain ⟨v, hfound, -, rfl, -⟩ := h.findAll_eq
  rw [references_importFrom_eq, hfound, moduleReference_wholeStatement (List.nil_append _).symm]
  rfl

/-- A call at the end of a text with one quoted specifier is the only call of its kind in it. -/
theorem references_of_call {keyword : String} (hk : Shape.IsKeyword keyword)
    (hkind : k.head = Shape.callHead keyword) (h : OnceQuoted (front ++ head) m (front ++ tail))
    (hhead : (Shape.callHead keyword).Describes head)
    (hmay : wordMayFollow (lastOr none front) = true) (hne : tail ≠ [])
    (hr : k.reader tail = some (m, [])) :
    k.references (front ++ tail) = [⟨byteLength front, String.ofList m⟩] := by
  have hquiet : Quiet k.reader none front tail := by
    intro p c r hs _
    subst hs
    cases hread : k.reader (c :: (r ++ tail)) with
    | none => rfl
    | some v =>
      have htext : p ++ c :: r ++ tail = p ++ c :: (r ++ tail) := by simp
      obtain ⟨w, hw, hwhead⟩ := (htext ▸ h).head_of_reader hread
      have he : w = c :: r ++ head := by simpa using hw.symm
      rw [hkind] at hwhead
      exact absurd he (callHead_ne_append hk hwhead hhead (List.cons_ne_nil c r))
  rw [ReferenceKind.references, findAll_eq_singleton hquiet hmay hne hr]
  rfl

/-- A declaration makes the reference at its end, whatever stands before what joins the two. -/
theorem references_of_link {link : List Char} (binding : List Char) (hk : kind ≠ .importFrom)
    (h : OnceQuoted (front ++ (link ++ head)) m (front ++ (link ++ tail)))
    (hlink : kind.shape.link.Describes link) (hhead : kind.referenceHead.Describes head)
    (hr : kind.shape.reference.read tail = some (m, [])) :
    let whole := front ++ (link ++ tail)
    kind.referenceKind.references whole =
      [(wholeStatement kind binding m (shown kind whole tail) whole).moduleReference] := by
  intro whole
  have hshown : shown kind whole tail = tail := by
    cases kind with
    | importFrom => exact absurd rfl hk
    | require | dynamicImport => rfl
  have hwhole : whole = front ++ link ++ tail := (List.append_assoc _ _ _).symm
  have hmay : wordMayFollow (lastOr none (front ++ link)) = true := by
    rw [lastOr_append]
    exact wordMayFollow_link hk hlink _
  have hne : tail ≠ [] := by
    rintro rfl
    obtain ⟨_, _, _, _, -, -, -, -, he⟩ := cut_of_reference hr
    simp at he
  rw [← List.append_assoc, ← List.append_assoc] at h
  rw [hshown, moduleReference_wholeStatement hwhole, hwhole]
  cases kind with
  | require => exact references_of_call Shape.isKeyword_require rfl h hhead hmay hne hr
  | dynamicImport => exact references_of_call Shape.isKeyword_import rfl h hhead hmay hne hr
  | importFrom => exact absurd rfl hk

end Searches

/-- A statement that binds a group is found if and only if there is a gap behind its keyword. With
one, the search finds the statement and the one reference it makes, whatever the blanks; without one
it finds no statement, and the reference alone if that is a call. -/
theorem bindingStatements_of_gap {kind : BindingKind} {word : String}
    {gap binding rest m tail : List Char} (hword : word ∈ keywords kind) (hgap : Blanks gap)
    (hgroup : Grouped kind binding) (hbody : Body kind binding m tail (binding ++ rest))
    (hm : ∀ c ∈ m, Shape.isQuote c = false) :
    let whole := word.toList ++ (gap ++ (binding ++ rest))
    let statement : BindingStatement := ⟨kind, String.ofList binding, String.ofList m,
      String.ofList (shown kind whole tail), 0, byteLength whole⟩
    (gap ≠ [] → bindingStatements (String.ofList whole) = [statement] ∧
      moduleReferences (String.ofList whole) = [statement.moduleReference]) ∧
    (gap = [] → bindingStatements (String.ofList whole) = [] ∧
      moduleReferences (String.ofList whole) =
        if kind = .importFrom then [] else [statement.moduleReference]) := by
  intro whole statement
  obtain ⟨link, hlink, rfl, hread⟩ := hgroup.exists_link hbody
  obtain ⟨head, hhead, honce⟩ := hgroup.exists_onceQuoted hword hgap hlink hm hread
  have hwhole : word.toList ++ gap ++ binding ++ (link ++ tail) = whole := by simp [whole]
  have hjoint : kind.joint.Describes (link ++ head) := .seq hlink hhead
  have hcall (hk : kind ≠ .importFrom) :
      kind.referenceKind.references whole = [statement.moduleReference] := by
    have hh := references_of_link binding hk honce hlink hhead hread
    rwa [hwhole] at hh
  rw [hwhole] at honce
  rw [bindingStatements_of_kind fun k hk => honce.statements_eq_nil hjoint hk,
    ReferenceKind.moduleReferences_of_kind fun k hk => honce.references_eq_nil hjoint hk]
  refine ⟨fun hne => ?_, fun hnil => ?_⟩
  · have hderives := hbody.derives hword hgap hne
    refine ⟨hderives.statements_eq, ?_⟩
    by_cases hk : kind = .importFrom
    · subst hk
      exact hderives.references_eq
    · exact hcall hk
  · subst hnil
    rw [List.append_nil, List.append_assoc] at honce
    have hnone := hgroup.findAll_of_tight hword hjoint honce
    refine ⟨by rw [BindingKind.statements, hnone, List.map_nil], ?_⟩
    by_cases hk : kind = .importFrom
    · subst hk
      rw [if_pos rfl]
      exact references_importFrom_eq.trans (by rw [hnone, List.map_nil])
    · rw [if_neg hk]
      exact hcall hk

/-- A list in braces with a gap before it and without one. -/
theorem bindingStatements_of_gap_roi :
    let statement : BindingStatement := ⟨.require, "\x7broi\x7d", "m", "require('m')", 0, 24⟩
    let tight : BindingStatement := ⟨.require, "\x7broi\x7d", "m", "require('m')", 0, 23⟩
    (bindingStatements "const \x7broi\x7d=require('m')" = [statement] ∧
      moduleReferences "const \x7broi\x7d=require('m')" = [statement.moduleReference]) ∧
    bindingStatements "const\x7broi\x7d=require('m')" = [] ∧
      moduleReferences "const\x7broi\x7d=require('m')" = [tight.moduleReference] := by
  have hnil : Blanks [] := fun _ hc => absurd hc List.not_mem_nil
  have hspace : Blanks [' '] := List.forall_mem_singleton.mpr rfl
  have hword : "const" ∈ keywords .require := by decide
  have hm : ∀ c ∈ ['m'], Shape.isQuote c = false := List.forall_mem_singleton.mpr rfl
  have hgroup : Grouped .require "\x7broi\x7d".toList :=
    .braced (forall_mem_of_all (by decide) : ∀ c ∈ "roi".toList, isListPart c = true)
  have hno : '}' ∉ "roi".toList := by decide
  have hcall : Call "require" ['m'] "require('m')".toList :=
    .intro hnil hnil hnil
      (.intro (by decide : Shape.isQuote '\'' = true) (by decide : Shape.isQuote '\'' = true)
        (by decide) hm)
  have hbody : Body .require "\x7broi\x7d".toList ['m'] "require('m')".toList
      ("\x7broi\x7d".toList ++ "=require('m')".toList) :=
    .require (.braced (.intro hno)) hnil hnil hcall
  exact ⟨(bindingStatements_of_gap hword hspace hgroup hbody hm).1 (by decide),
    (bindingStatements_of_gap hword hnil hgroup hbody hm).2 rfl⟩

/-- Statements as they are written without blanks that are not needed: no binding is found, and no
reference of an import. -/
theorem bindings_lost_without_gap :
    bindingStatements "const \x7ba\x7d=require('m')" =
        [⟨.require, "\x7ba\x7d", "m", "require('m')", 0, 22⟩] ∧
      bindingStatements "const\x7ba\x7d=require('m')" = [] ∧
      bindingStatements "import \x7ba\x7dfrom'm'" =
        [⟨.importFrom, "\x7ba\x7d", "m", "import \x7ba\x7dfrom'm'", 0, 17⟩] ∧
      bindingStatements "import\x7ba\x7dfrom'm'" = [] ∧
      moduleReferences "import \x7ba\x7dfrom'm'" = [⟨0, "m"⟩] ∧
      moduleReferences "import\x7ba\x7dfrom'm'" = [] := by
  decide +kernel

end ImportLedger
