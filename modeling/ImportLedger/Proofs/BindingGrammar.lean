import ImportLedger.Proofs.Readings
import ImportLedger.Statement.Binding

/-! The grammar of binding statements, character by character, and what their readers make of it:
a reader reads what the grammar derives, and from every derivation it reads something. -/

namespace ImportLedger

open Pattern Text

namespace Grammar

def Blanks (s : List Char) : Prop := ∀ c ∈ s, isBlank c = true

inductive Name : List Char → Prop
  | intro {c : Char} {s : List Char} (hc : isTokenStart c = true)
      (hs : ∀ d ∈ s, isTokenPart d = true) : Name (c :: s)

/-- A text from an opening bracket to the first closing one. -/
inductive Enclosed (opening closing : Char) : List Char → Prop
  | intro {s : List Char} (hs : closing ∉ s) :
    Enclosed opening closing (opening :: (s ++ [closing]))

/-- A name for all that a module exports. -/
inductive Alias : List Char → Prop
  | intro {b b' n : List Char} (hb : Blanks b) (hb' : Blanks b') (hne : b' ≠ []) (hn : Name n) :
      Alias ('*' :: (b ++ ("as".toList ++ (b' ++ n))))

/-- What a declaration binds. -/
inductive Target : List Char → Prop
  | name {s : List Char} (h : Name s) : Target s
  | braced {s : List Char} (h : Enclosed '{' '}' s) : Target s
  | bracketed {s : List Char} (h : Enclosed '[' ']' s) : Target s

/-- What an import binds without a default. -/
inductive Group : List Char → Prop
  | braced {s : List Char} (h : Enclosed '{' '}' s) : Group s
  | all {s : List Char} (h : Alias s) : Group s

/-- What an import binds: a default, a group, or both. -/
inductive Imported : List Char → Prop
  | default {s : List Char} (h : Name s) : Imported s
  | both {n b b' s : List Char} (hn : Name n) (hb : Blanks b) (hb' : Blanks b') (hs : Group s) :
      Imported (n ++ (b ++ ',' :: (b' ++ s)))
  | group {s : List Char} (h : Group s) : Imported s

/-- A word that may be left out, with the blanks behind it. -/
inductive Marker (word : String) : List Char → Prop
  | absent : Marker word []
  | present {b : List Char} (hb : Blanks b) (hne : b ≠ []) : Marker word (word.toList ++ b)

/-- A specifier between two quotes, which need not be the same. -/
inductive Quoted (quotes : Char → Bool) (m : List Char) : List Char → Prop
  | intro {q q' : Char} (hq : quotes q = true) (hq' : quotes q' = true) (hne : m ≠ [])
      (hm : ∀ c ∈ m, quotes c = false) : Quoted quotes m (q :: (m ++ [q']))

inductive Call (keyword : String) (m : List Char) : List Char → Prop
  | intro {b b' b'' s : List Char} (hb : Blanks b) (hb' : Blanks b') (hb'' : Blanks b'')
      (hs : Quoted Shape.isQuote m s) :
      Call keyword m (keyword.toList ++ (b ++ '(' :: (b' ++ (s ++ (b'' ++ [')'])))))

def declarators : List String := ["const", "let", "var"]

/-- Binding statements of each kind: what they bind, the specifier, the text of the reference and
the whole text. -/
inductive Derives : BindingKind → (binding specifier reference whole : List Char) → Prop
  | require {word : String} {b b' b'' binding m call : List Char} (hw : word ∈ declarators)
      (hb : Blanks b) (hne : b ≠ []) (ht : Target binding) (hb' : Blanks b') (hb'' : Blanks b'')
      (hc : Call "require" m call) :
      Derives .require binding m call
        (word.toList ++ (b ++ (binding ++ (b' ++ '=' :: (b'' ++ call)))))
  | dynamicImport {word : String} {b b' b'' wait binding m call : List Char}
      (hw : word ∈ declarators) (hb : Blanks b) (hne : b ≠ []) (ht : Target binding)
      (hb' : Blanks b') (hb'' : Blanks b'') (ha : Marker "await" wait) (hc : Call "import" m call) :
      Derives .dynamicImport binding m call
        (word.toList ++ (b ++ (binding ++ (b' ++ '=' :: (b'' ++ (wait ++ call))))))
  | importFrom {b b' b'' type binding m s whole : List Char} (hb : Blanks b) (hne : b ≠ [])
      (ht : Marker "type" type) (hi : Imported binding) (hb' : Blanks b') (hb'' : Blanks b'')
      (hs : Quoted Shape.isPlainQuote m s)
      (he : whole = "import".toList ++ (b ++ (type ++ (binding ++ (b' ++
        ("from".toList ++ (b'' ++ s))))))) :
      Derives .importFrom binding m whole whole

theorem Derives.ne_nil {kind : BindingKind} {binding specifier reference whole : List Char}
    (h : Derives kind binding specifier reference whole) : whole ≠ [] := by
  cases h with
  | require => simp
  | dynamicImport => simp
  | importFrom _ _ _ _ _ _ _ he => simp [he]

/-- The part of a statement that its record shows: all of it, or its call. -/
def shown (kind : BindingKind) (whole tail : List Char) : List Char :=
  match kind with
  | .importFrom => whole
  | .require | .dynamicImport => tail

section Patterns

variable {s : List Char}

theorem describes_blanks : Shape.blanks.Describes s ↔ Blanks s := describes_run

theorem describes_someBlanks : Shape.someBlanks.Describes s ↔ s ≠ [] ∧ Blanks s := describes_someOf

theorem describes_name : Shape.name.Describes s ↔ Name s := by
  rw [Shape.name, describes_append]
  constructor
  · rintro ⟨_, t, hc, ht, rfl⟩
    obtain ⟨c, hstart, rfl⟩ := describes_one.mp hc
    exact .intro hstart (describes_run.mp ht)
  · rintro ⟨hc, ht⟩
    exact ⟨[_], _, .one hc, .run ht, rfl⟩

theorem describes_braced : Shape.braced.Describes s ↔ Enclosed '{' '}' s := by
  simp only [Shape.braced, describes_append, describes_literal, describes_run]
  constructor
  · rintro ⟨_, _, ⟨_, t, rfl, ht, rfl⟩, rfl, rfl⟩
    exact .intro fun hm => by simpa using ht _ hm
  · rintro ⟨ht⟩
    exact ⟨_, _, ⟨_, _, rfl, fun c hc => bne_iff_ne.mpr fun e => ht (e ▸ hc), rfl⟩, rfl, rfl⟩

theorem describes_bracketed : Shape.bracketed.Describes s ↔ Enclosed '[' ']' s := by
  simp only [Shape.bracketed, describes_append, describes_literal, describes_run]
  constructor
  · rintro ⟨_, _, ⟨_, t, rfl, ht, rfl⟩, rfl, rfl⟩
    exact .intro fun hm => by simpa using ht _ hm
  · rintro ⟨ht⟩
    exact ⟨_, _, ⟨_, _, rfl, fun c hc => bne_iff_ne.mpr fun e => ht (e ▸ hc), rfl⟩, rfl, rfl⟩

theorem describes_namespaceAlias : Shape.namespaceAlias.Describes s ↔ Alias s := by
  simp only [Shape.namespaceAlias, describes_append, describes_literal, describes_blanks,
    describes_someBlanks, describes_name]
  constructor
  · rintro ⟨_, n, ⟨_, b', ⟨_, _, ⟨_, b, rfl, hb, rfl⟩, rfl, rfl⟩, ⟨hne, hb'⟩, rfl⟩, hn, rfl⟩
    have hh := Alias.intro hb hb' hne hn
    simpa using hh
  · rintro ⟨hb, hb', hne, hn⟩
    exact ⟨_, _, ⟨_, _, ⟨_, _, ⟨_, _, rfl, hb, rfl⟩, rfl, rfl⟩, ⟨hne, hb'⟩, rfl⟩, hn, by simp⟩

theorem describes_target :
    (either Shape.name (either Shape.braced Shape.bracketed)).Describes s ↔ Target s := by
  simp only [describes_either, describes_name, describes_braced, describes_bracketed]
  constructor
  · rintro (h | h | h)
    · exact .name h
    · exact .braced h
    · exact .bracketed h
  · intro h
    cases h with
    | name h => exact .inl h
    | braced h => exact .inr (.inl h)
    | bracketed h => exact .inr (.inr h)

theorem describes_group : (either Shape.braced Shape.namespaceAlias).Describes s ↔ Group s := by
  simp only [describes_either, describes_braced, describes_namespaceAlias]
  constructor
  · rintro (h | h)
    · exact .braced h
    · exact .all h
  · intro h
    cases h with
    | braced h => exact .inl h
    | all h => exact .inr h

theorem describes_imported : Shape.importFrom.binding.Describes s ↔ Imported s := by
  have hmore (t : List Char) : (Shape.blanks ++ literal "," ++ Shape.blanks ++
      either Shape.braced Shape.namespaceAlias).Describes t ↔
        ∃ b b' g, Blanks b ∧ Blanks b' ∧ Group g ∧ t = b ++ ',' :: (b' ++ g) := by
    simp only [describes_append, describes_literal, describes_blanks, describes_group]
    constructor
    · rintro ⟨_, g, ⟨_, b', ⟨b, _, hb, rfl, rfl⟩, hb', rfl⟩, hg, rfl⟩
      exact ⟨b, b', g, hb, hb', hg, by simp⟩
    · rintro ⟨b, b', g, hb, hb', hg, rfl⟩
      exact ⟨_, g, ⟨_, b', ⟨b, _, hb, rfl, rfl⟩, hb', rfl⟩, hg, by simp⟩
  have hsplit : Shape.importFrom.binding.Describes s ↔
      (∃ n t, Name n ∧ ((∃ b b' g, Blanks b ∧ Blanks b' ∧ Group g ∧ t = b ++ ',' :: (b' ++ g)) ∨
        t = []) ∧ s = n ++ t) ∨ Group s := by
    rw [← describes_group]
    simp only [← hmore, ← describes_name, ← describes_optional, ← describes_append]
    exact describes_either
  rw [hsplit]
  constructor
  · rintro (⟨n, _, hn, ⟨b, b', g, hb, hb', hg, rfl⟩ | rfl, rfl⟩ | hg)
    · exact .both hn hb hb' hg
    · exact .default (by simpa using hn)
    · exact .group hg
  · intro h
    cases h with
    | default h => exact .inl ⟨s, [], h, .inr rfl, by simp⟩
    | both hn hb hb' hs => exact .inl ⟨_, _, hn, .inl ⟨_, _, _, hb, hb', hs, rfl⟩, rfl⟩
    | group h => exact .inr h

theorem describes_marker {word : String} :
    (optional (literal word ++ Shape.someBlanks)).Describes s ↔ Marker word s := by
  simp only [describes_optional, describes_append, describes_literal, describes_someBlanks]
  constructor
  · rintro (⟨_, b, rfl, ⟨hne, hb⟩, rfl⟩ | rfl)
    · exact .present hb hne
    · exact .absent
  · intro h
    cases h with
    | absent => exact .inr rfl
    | present hb hne => exact .inl ⟨_, _, rfl, ⟨hne, hb⟩, rfl⟩

theorem describes_declarator : Shape.declarator.Describes s ↔
    ∃ word ∈ declarators, ∃ b, Blanks b ∧ b ≠ [] ∧ s = word.toList ++ b := by
  simp only [Shape.declarator, describes_append, describes_either, describes_literal,
    describes_someBlanks, declarators]
  constructor
  · rintro ⟨_, b, rfl | rfl | rfl, ⟨hne, hb⟩, rfl⟩
    · exact ⟨"const", by simp, b, hb, hne, rfl⟩
    · exact ⟨"let", by simp, b, hb, hne, rfl⟩
    · exact ⟨"var", by simp, b, hb, hne, rfl⟩
  · rintro ⟨word, hw, b, hb, hne, rfl⟩
    refine ⟨_, b, ?_, ⟨hne, hb⟩, rfl⟩
    simp only [List.mem_cons, List.not_mem_nil, or_false] at hw
    rcases hw with rfl | rfl | rfl <;> simp

theorem describes_requireLink : Shape.requireBinding.link.Describes s ↔
    ∃ b b', Blanks b ∧ Blanks b' ∧ s = b ++ '=' :: b' := by
  simp only [Shape.requireBinding, describes_append, describes_literal, describes_blanks]
  constructor
  · rintro ⟨_, b', ⟨b, _, hb, rfl, rfl⟩, hb', rfl⟩
    exact ⟨b, b', hb, hb', by simp⟩
  · rintro ⟨b, b', hb, hb', rfl⟩
    exact ⟨_, b', ⟨b, _, hb, rfl, rfl⟩, hb', by simp⟩

theorem describes_dynamicLink : Shape.dynamicBinding.link.Describes s ↔
    ∃ b b' wait, Blanks b ∧ Blanks b' ∧ Marker "await" wait ∧ s = b ++ '=' :: (b' ++ wait) := by
  simp only [Shape.dynamicBinding, describes_append, describes_literal, describes_blanks,
    describes_marker]
  constructor
  · rintro ⟨_, wait, ⟨_, b', ⟨b, _, hb, rfl, rfl⟩, hb', rfl⟩, hw, rfl⟩
    exact ⟨b, b', wait, hb, hb', hw, by simp⟩
  · rintro ⟨b, b', wait, hb, hb', hw, rfl⟩
    exact ⟨_, wait, ⟨_, b', ⟨b, _, hb, rfl, rfl⟩, hb', rfl⟩, hw, by simp⟩

theorem describes_importLead : Shape.importFrom.lead.Describes s ↔
    ∃ b type, Blanks b ∧ b ≠ [] ∧ Marker "type" type ∧ s = "import".toList ++ (b ++ type) := by
  simp only [Shape.importFrom, describes_append, describes_literal, describes_someBlanks,
    describes_marker]
  constructor
  · rintro ⟨_, type, ⟨_, b, rfl, ⟨hne, hb⟩, rfl⟩, ht, rfl⟩
    exact ⟨b, type, hb, hne, ht, by simp⟩
  · rintro ⟨b, type, hb, hne, ht, rfl⟩
    exact ⟨_, type, ⟨_, b, rfl, ⟨hne, hb⟩, rfl⟩, ht, by simp⟩

theorem describes_importLink : Shape.importFrom.link.Describes s ↔
    ∃ b b', Blanks b ∧ Blanks b' ∧ s = b ++ ("from".toList ++ b') := by
  simp only [Shape.importFrom, describes_append, describes_literal, describes_blanks]
  constructor
  · rintro ⟨_, b', ⟨b, _, hb, rfl, rfl⟩, hb', rfl⟩
    exact ⟨b, b', hb, hb', by simp⟩
  · rintro ⟨b, b', hb, hb', rfl⟩
    exact ⟨_, b', ⟨b, _, hb, rfl, rfl⟩, hb', by simp⟩

end Patterns

section Readers

variable {s m left : List Char}

theorem call_read {keyword : String} (hk : Shape.IsKeyword keyword) :
    (Shape.call keyword).read s = some (m, left) ↔ ∃ t, Call keyword m t ∧ s = t ++ left := by
  rw [Shape.call_read_iff hk]
  constructor
  · rintro ⟨_, q, q', b'', hhead, hq, hq', hne, hm, hb'', rfl⟩
    obtain ⟨b, b', hb, hb', rfl⟩ := Shape.describes_callHead.mp hhead
    exact ⟨_, .intro hb hb' hb'' (.intro hq hq' hne hm), by simp⟩
  · rintro ⟨_, ⟨hb, hb', hb'', hq, hq', hne, hm⟩, rfl⟩
    exact ⟨_, _, _, _, Shape.describes_callHead.mpr ⟨_, _, hb, hb', rfl⟩, hq, hq', hne, hm, hb'',
      by simp⟩

theorem quoted_of_read (h : Shape.importFrom.reference.read s = some (m, left)) :
    ∃ t, Quoted Shape.isPlainQuote m t ∧ s = t ++ left := by
  obtain ⟨t, q, q', ht, hq, hq', hne, hm, rfl⟩ := Shape.quoted_read_sound h
  rw [describes_literal.mp ht]
  exact ⟨_, .intro hq hq' hne hm, by simp⟩

theorem exists_read_of_quoted {t : List Char} (h : Quoted Shape.isPlainQuote m t)
    (left : List Char) : ∃ v, Shape.importFrom.reference.read (t ++ left) = some v := by
  cases h with
  | @intro q q' hq hq' hne hm =>
    have hread : ∃ v, Shape.importFrom.reference.read ([] ++ q :: (m ++ q' :: left)) = some v :=
      Shape.exists_quoted_read (.literal "") hq hq' hne hm
    simpa only [List.nil_append, List.cons_append, List.append_assoc] using hread

/-- What the reader of a kind reads is derived, and the rest of the text is left. -/
theorem derives_of_read {kind : BindingKind} {v : BindingReading}
    (h : kind.shape.read s = some (v, left)) :
    ∃ whole, s = whole ++ left ∧
      Derives kind v.binding v.specifier (shown kind whole v.reference) whole := by
  obtain ⟨lead, link, hlead, hbinding, hlink, href, rfl⟩ := BindingShape.read_sound h
  refine ⟨lead ++ (v.binding ++ (link ++ v.reference)), by simp, ?_⟩
  cases kind with
  | require =>
    obtain ⟨word, hw, b, hb, hne, rfl⟩ := describes_declarator.mp hlead
    obtain ⟨b', b'', hb', hb'', rfl⟩ := describes_requireLink.mp hlink
    obtain ⟨t, hc, ht⟩ := (call_read Shape.isKeyword_require).mp href
    obtain rfl := List.append_cancel_right ht
    have hh := Derives.require hw hb hne (describes_target.mp hbinding) hb' hb'' hc
    simpa [shown] using hh
  | dynamicImport =>
    obtain ⟨word, hw, b, hb, hne, rfl⟩ := describes_declarator.mp hlead
    obtain ⟨b', b'', wait, hb', hb'', ha, rfl⟩ := describes_dynamicLink.mp hlink
    obtain ⟨t, hc, ht⟩ := (call_read Shape.isKeyword_import).mp href
    obtain rfl := List.append_cancel_right ht
    have hh := Derives.dynamicImport hw hb hne (describes_target.mp hbinding) hb' hb'' ha hc
    simpa [shown] using hh
  | importFrom =>
    obtain ⟨b, type, hb, hne, ht, rfl⟩ := describes_importLead.mp hlead
    obtain ⟨b', b'', hb', hb'', rfl⟩ := describes_importLink.mp hlink
    obtain ⟨t, hs, he⟩ := quoted_of_read href
    obtain rfl := List.append_cancel_right he
    exact .importFrom hb hne ht (describes_imported.mp hbinding) hb' hb'' hs (by simp [shown])

/-- From the text of a derivation a reader reads something, whatever follows. -/
theorem exists_read_of_derives {kind : BindingKind} {binding reference whole : List Char}
    (h : Derives kind binding m reference whole) (left : List Char) :
    ∃ v, kind.shape.read (whole ++ left) = some v := by
  cases h with
  | require hw hb hne ht hb' hb'' hc =>
    have hlead := describes_declarator.mpr ⟨_, hw, _, hb, hne, rfl⟩
    have hlink := describes_requireLink.mpr ⟨_, _, hb', hb'', rfl⟩
    have hcall : ∃ v, Shape.requireCall.read (reference ++ left) = some v :=
      ⟨_, (call_read Shape.isKeyword_require).mpr ⟨_, hc, rfl⟩⟩
    have hh : ∃ v, BindingKind.require.shape.read _ = some v :=
      BindingShape.exists_read hlead (describes_target.mpr ht) hlink hcall
    simpa only [List.append_assoc, List.cons_append] using hh
  | dynamicImport hw hb hne ht hb' hb'' ha hc =>
    have hlead := describes_declarator.mpr ⟨_, hw, _, hb, hne, rfl⟩
    have hlink := describes_dynamicLink.mpr ⟨_, _, _, hb', hb'', ha, rfl⟩
    have hcall : ∃ v, Shape.dynamicImport.read (reference ++ left) = some v :=
      ⟨_, (call_read Shape.isKeyword_import).mpr ⟨_, hc, rfl⟩⟩
    have hh : ∃ v, BindingKind.dynamicImport.shape.read _ = some v :=
      BindingShape.exists_read hlead (describes_target.mpr ht) hlink hcall
    simpa only [List.append_assoc, List.cons_append] using hh
  | importFrom hb hne ht hi hb' hb'' hs he =>
    have hlead := describes_importLead.mpr ⟨_, _, hb, hne, ht, rfl⟩
    have hlink := describes_importLink.mpr ⟨_, _, hb', hb'', rfl⟩
    have hh : ∃ v, BindingKind.importFrom.shape.read _ = some v :=
      BindingShape.exists_read hlead (describes_imported.mpr hi) hlink
        (exists_read_of_quoted hs left)
    rw [he]
    simpa only [List.append_assoc, List.cons_append] using hh

end Readers

end Grammar

end ImportLedger
