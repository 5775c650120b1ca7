import ImportLedger.Proofs.BindingReadings
import ImportLedger.Proofs.ReferenceKinds

/-! The grammar of references and their search. A reader of a kind reads exactly what the grammar
derives, and the search finds every derivation that does not begin within one found before it. -/

namespace ImportLedger

open Text Occurrence

namespace Grammar

/-- References of each kind: the specifier and the whole text. -/
inductive Refers : ReferenceKind → (specifier whole : List Char) → Prop
  | require {m s : List Char} (h : Call "require" m s) : Refers .require m s
  | importFrom {binding m s : List Char} (h : Derives .importFrom binding m s s) :
      Refers .importFrom m s
  | sideEffect {b m s : List Char} (hb : Blanks b) (hs : Quoted Shape.isPlainQuote m s) :
      Refers .sideEffect m ("import".toList ++ (b ++ s))
  | dynamicImport {m s : List Char} (h : Call "import" m s) : Refers .dynamicImport m s

/-- A reference that a text holds at a byte offset, where a word may begin. -/
def RefersAt (text : List Char) (offset : Nat) (kind : ReferenceKind)
    (specifier whole : List Char) : Prop :=
  ∃ before after, text = before ++ (whole ++ after) ∧ offset = byteLength before ∧
    (∀ c ∈ before.getLast?, isWord c = false) ∧ Refers kind specifier whole

section Readers

variable {kind : ReferenceKind} {s m left whole : List Char}

theorem Quoted.past_blank {u : List Char} (h : Quoted Shape.isPlainQuote m s) :
    Past isBlank (s ++ u) := by
  obtain ⟨hq, -⟩ := h
  exact past_cons.mpr (not_isBlank_of_isPlainQuote hq)

theorem sideEffect_of_read (h : Shape.sideEffectImport.read s = some (m, left)) :
    ∃ b t, Blanks b ∧ Quoted Shape.isPlainQuote m t ∧
      s = "import".toList ++ (b ++ (t ++ left)) := by
  obtain ⟨w, q, q', hw, hq, hq', hne, hm, rfl⟩ := Shape.quoted_read_sound h
  obtain ⟨_, b, hword, hb, rfl⟩ := Pattern.describes_append.mp hw
  rw [Pattern.describes_literal.mp hword]
  exact ⟨b, _, describes_blanks.mp hb, .intro hq hq' hne hm, by simp⟩

theorem read_of_sideEffect {b t : List Char} (hb : Blanks b) (ht : Quoted Shape.isPlainQuote m t)
    (left : List Char) :
    Shape.sideEffectImport.read ("import".toList ++ (b ++ (t ++ left))) = some (m, left) := by
  have hsome : ∃ v, Shape.sideEffectImport.read ("import".toList ++ (b ++ (t ++ left))) =
      some v := by
    obtain @⟨q, q', hq, hq', hne, hm⟩ := ht
    have hread : ∃ v, Shape.sideEffectImport.read ("import".toList ++ b ++ q :: (m ++ q' :: left)) =
        some v :=
      Shape.exists_quoted_read (.seq (.literal "import") (describes_blanks.mpr hb)) hq hq' hne hm
    simpa using hread
  obtain ⟨⟨m', left'⟩, hr⟩ := hsome
  obtain ⟨b', t', hb', ht', hs⟩ := sideEffect_of_read hr
  obtain ⟨-, hquoted⟩ := hb.append_inj hb' ht.past_blank ht'.past_blank (List.append_cancel_left hs)
  obtain ⟨rfl, rfl⟩ := ht.append_inj ht' hquoted
  rw [hr, List.append_cancel_left hquoted]

/-- A reader reads exactly the references of its kind. -/
theorem reader_iff :
    kind.reader s = some (m, left) ↔ ∃ whole, Refers kind m whole ∧ s = whole ++ left := by
  constructor
  · intro h
    cases kind with
    | require =>
      obtain ⟨t, hc, rfl⟩ := (call_read Shape.isKeyword_require).mp h
      exact ⟨t, .require hc, rfl⟩
    | dynamicImport =>
      obtain ⟨t, hc, rfl⟩ := (call_read Shape.isKeyword_import).mp h
      exact ⟨t, .dynamicImport hc, rfl⟩
    | sideEffect =>
      obtain ⟨b, t, hb, ht, rfl⟩ := sideEffect_of_read h
      exact ⟨_, .sideEffect hb ht, by simp⟩
    | importFrom =>
      obtain ⟨⟨v, rest⟩, hr, he⟩ := Option.map_eq_some_iff.mp h
      cases he
      have hread : BindingKind.importFrom.shape.read s = some (v, left) := hr
      obtain ⟨whole, rfl, hd⟩ := derives_of_read hread
      exact ⟨whole, .importFrom hd, rfl⟩
  · rintro ⟨whole, h, rfl⟩
    cases h with
    | require hc => exact (call_read Shape.isKeyword_require).mpr ⟨_, hc, rfl⟩
    | dynamicImport hc => exact (call_read Shape.isKeyword_import).mpr ⟨_, hc, rfl⟩
    | sideEffect hb ht =>
      rw [List.append_assoc, List.append_assoc]
      exact read_of_sideEffect hb ht left
    | importFrom hd =>
      obtain ⟨v, hr, -, rfl, -⟩ := read_of_derives hd left
      exact Option.map_eq_some_iff.mpr ⟨_, hr, rfl⟩

theorem Refers.ne_nil (h : Refers kind m whole) : whole ≠ [] := by
  cases h with
  | require hc => obtain ⟨-, -, -, -⟩ := hc; simp
  | importFrom hd => exact hd.ne_nil
  | sideEffect => simp
  | dynamicImport hc => obtain ⟨-, -, -, -⟩ := hc; simp

end Readers

end Grammar

open Grammar

section Search

variable {kind : ReferenceKind} {text specifier whole : List Char} {offset : Nat}
  {o : Occurrence (List Char)}

theorem refersAt_of_mem_findAll (h : o ∈ findAll kind.reader text) :
    RefersAt text o.start kind o.value o.text := by
  obtain ⟨p, c, r, left, ht, hw, hr, hstart, htext⟩ := exists_of_mem_findAll h
  obtain ⟨whole, href, hs⟩ := reader_iff.mp hr
  rw [lastOr_none] at hw
  rw [hs, consumed_append] at htext
  exact ⟨p, left, by rw [ht, hs, htext], hstart, wordMayFollow_iff.mp hw, htext ▸ href⟩

theorem mem_findAll_or_within (h : RefersAt text offset kind specifier whole) :
    ⟨offset, whole, specifier⟩ ∈ findAll kind.reader text ∨
      ∃ o ∈ findAll kind.reader text, o.start < offset ∧ offset < o.stop := by
  obtain ⟨p, left, rfl, rfl, hw, href⟩ := h
  have hr : kind.reader (whole ++ left) = some (specifier, left) :=
    reader_iff.mpr ⟨whole, href, rfl⟩
  have hmay : wordMayFollow (lastOr none p) = true := by
    rw [lastOr_none]
    exact wordMayFollow_iff.mpr hw
  obtain ⟨c, r, rfl⟩ := List.exists_cons_of_ne_nil href.ne_nil
  have hconsumed : consumed (c :: (r ++ left)) left = c :: r := consumed_append (c :: r) left
  have hfound := mem_findAll_or_covered rfl hmay hr
  rwa [List.append_eq, hconsumed] at hfound

end Search

/-- What is to be found of a kind of references in a text: nothing that is not derived where it
begins, no two that overlap, and all that is derived but what begins within something found. -/
structure FindsReferences (kind : ReferenceKind) (text : List Char)
    (found : List (Occurrence (List Char))) : Prop where
  sound : ∀ o ∈ found, RefersAt text o.start kind o.value o.text
  disjoint : found.Pairwise (·.stop ≤ ·.start)
  complete : ∀ offset specifier whole, RefersAt text offset kind specifier whole →
    ⟨offset, whole, specifier⟩ ∈ found ∨ ∃ o ∈ found, o.start < offset ∧ offset < o.stop

/-- The part of a line that a call is. -/
def RequireCall.occurrence (c : RequireCall) : Occurrence (List Char) :=
  ⟨c.start, c.text.toList, c.specifier.toList⟩

theorem map_occurrence_requireCalls (text : String) :
    (requireCalls text).map (·.occurrence) = findAll ReferenceKind.require.reader text.toList := by
  rw [requireCalls, List.map_map]
  refine List.map_id'' (fun o => ?_) _
  simp [RequireCall.occurrence]

theorem findsReferences_findAll (kind : ReferenceKind) (text : List Char) :
    FindsReferences kind text (findAll kind.reader text) where
  sound _ h := refersAt_of_mem_findAll h
  disjoint := leftmost_pairwise 0 _
  complete _ _ _ h := mem_findAll_or_within h

/-- The searches for references find what the grammar derives, each for its kind, and the
references of a line are what they find. The calls of a line are those of one kind, with the
text that is passed over as their text. -/
theorem references_of_grammar (text : String) :
    (∀ kind : ReferenceKind,
      FindsReferences kind text.toList (findAll kind.reader text.toList)) ∧
    (∀ r, r ∈ moduleReferences text ↔ ∃ kind : ReferenceKind,
      ∃ o ∈ findAll kind.reader text.toList, r = ⟨o.start, String.ofList o.value⟩) ∧
    FindsReferences .require text.toList ((requireCalls text).map (·.occurrence)) := by
  refine ⟨fun kind => findsReferences_findAll kind _, fun r => ?_, ?_⟩
  · rw [ReferenceKind.mem_moduleReferences]
    refine exists_congr fun kind => ?_
    rw [ReferenceKind.references, List.mem_map]
    exact exists_congr fun o => and_congr_right fun _ => eq_comm
  · rw [map_occurrence_requireCalls]
    exact findsReferences_findAll .require _

/-- The text that is quoted first closes no call, and the call that begins within it is found. -/
theorem references_of_grammar_nested :
    let text := "require('x; require('y')"
    let whole := "require('y')".toList
    RefersAt text.toList 12 .require ['y'] whole ∧
      (⟨12, whole, ['y']⟩ ∈ (requireCalls text).map (·.occurrence) ∨
        ∃ o ∈ (requireCalls text).map (·.occurrence), o.start < 12 ∧ 12 < o.stop) ∧
      requireCalls text = [⟨"y", "require('y')", 12⟩] := by
  intro text whole
  have hblanks : Blanks [] := fun _ hc => absurd hc List.not_mem_nil
  have hquote : Shape.isQuote '\'' = true := by decide
  have hcall : Call "require" ['y'] whole :=
    .intro hblanks hblanks hblanks
      (.intro hquote hquote (by decide) (List.forall_mem_singleton.mpr rfl))
  have hspace : ∀ c ∈ "require('x; ".toList.getLast?, isWord c = false := by
    rintro c ⟨⟩
    rfl
  have hat : RefersAt text.toList 12 .require ['y'] whole :=
    ⟨"require('x; ".toList, [], by decide, by decide, hspace, .require hcall⟩
  obtain ⟨-, -, hcalls⟩ := references_of_grammar text
  exact ⟨hat, hcalls.complete _ _ _ hat, by decide +kernel⟩

end ImportLedger
